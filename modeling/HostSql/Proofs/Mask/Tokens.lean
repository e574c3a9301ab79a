import HostSql.Mask
import HostSql.Proofs.Text.Respaced
import Mathlib.Tactic.ByContra

/-! Identifiers that stand for expressions. Only its third character is an `E`, so an identifier can
share with the next one in a text no more than its last two characters. -/
namespace HostSql.Mask

theorem length_token (n : Nat) : 15 ≤ (token n).length := by
  have := Nat.length_toDigits_pos (b := 10) (n := n)
  simp only [token, marker, List.length_append, List.length_cons, List.length_nil]
  omega

theorem token_ne_nil (n : Nat) : token n ≠ [] := by
  intro h
  have := length_token n
  rw [h] at this
  simp at this

/-- The identifier from its third character on. -/
theorem token_shape (n : Nat) : ∃ body, token n = '_' :: '_' :: 'E' :: body ∧ 'E' ∉ body := by
  refine ⟨marker.drop 3 ++ Nat.toDigits 10 n ++ ['_', '_'], rfl, ?_⟩
  have digits : 'E' ∉ Nat.toDigits 10 n := fun h => by
    have := Nat.isDigit_of_mem_toDigits (by decide) (by decide) h
    simp at this
  simp [marker, digits]

theorem eq_two_of_token_getElem? {n i : Nat} (h : (token n)[i]? = some 'E') : i = 2 := by
  obtain ⟨body, shape, absent⟩ := token_shape n
  rw [shape] at h
  match i with
  | 0 | 1 => simp at h
  | 2 => rfl
  | i + 3 =>
    have : 'E' ∈ body := List.mem_of_getElem? (i := i) (by simpa using h)
    exact absurd this absent

/-- Two occurrences of identifiers share two characters at most. -/
theorem tokens_apart {a b : Nat} {u v u' v' : Text}
    (h : u ++ (token a ++ v) = u' ++ (token b ++ v')) (hlt : u.length < u'.length) :
    u.length + (token a).length ≤ u'.length + 2 := by
  apply Nat.le_of_not_lt
  intro inside
  have right : (u' ++ (token b ++ v'))[u'.length + 2]? = some 'E' := by
    obtain ⟨body, shape, -⟩ := token_shape b
    rw [List.getElem?_append_right (by omega), shape]
    simp
  rw [← h, List.getElem?_append_right (by omega), List.getElem?_append_left (by omega)] at right
  have := eq_two_of_token_getElem? right
  omega

/-- The digits of an identifier end where its last underscores begin. -/
theorem token_inj {a b : Nat} {v v' : Text} (h : token a ++ v = token b ++ v') : a = b := by
  have digits (n : Nat) (w : Text) :
      ((token n ++ w).drop marker.length).takeWhile Char.isDigit = Nat.toDigits 10 n := by
    have all : ∀ c ∈ Nat.toDigits 10 n, c.isDigit = true := fun c hc =>
      Nat.isDigit_of_mem_toDigits (by decide) (by decide) hc
    rw [token, List.append_assoc, List.append_assoc, List.drop_left,
      List.takeWhile_append_of_pos all]
    simp
  have same : Nat.toDigits 10 a = Nat.toDigits 10 b := by rw [← digits a v, h, digits]
  rw [← Nat.ofDigitChars_ten_toDigits (n := a), same, Nat.ofDigitChars_ten_toDigits]

/-- No identifier stands in another one. -/
theorem token_infix_iff {a b : Nat} : token a <:+: token b ↔ a = b := by
  constructor
  · rintro ⟨u, v, whole⟩
    obtain ⟨body, shape, -⟩ := token_shape a
    have letter : (token b)[u.length + 2]? = some 'E' := by
      rw [← whole, List.append_assoc, List.getElem?_append_right (by omega), shape]
      simp
    have front : u = [] := by
      have := eq_two_of_token_getElem? letter
      exact List.eq_nil_of_length_eq_zero (by omega)
    have both : token a ++ v = token b ++ [] := by
      rw [← whole, front, List.nil_append, List.append_nil]
    exact token_inj both
  · rintro rfl
    exact List.infix_refl _

theorem not_blank_of_isDigit {c : Char} (h : c.isDigit = true) : isBlank c = false := by
  simp only [Char.isDigit, Bool.and_eq_true, decide_eq_true_eq] at h
  have low : 48 ≤ c.toNat := UInt32.le_iff_toNat_le.1 h.1
  have high : c.toNat ≤ 57 := UInt32.le_iff_toNat_le.1 h.2
  have among : c ∈ (List.range' 48 10).map Char.ofNat :=
    List.mem_map.2 ⟨c.toNat, List.mem_range'_1.2 (by omega), Char.ofNat_toNat c⟩
  have digits : ((List.range' 48 10).map Char.ofNat).all (!isBlank ·) = true := by decide
  simpa using List.all_eq_true.1 digits c among

theorem searched_token (n : Nat) : Text.Searched (token n) where
  solid c hc := by
    have around : (marker ++ ['_', '_']).all (!isBlank ·) = true := by decide
    have solid (hc : c ∈ marker ++ ['_', '_']) : isBlank c = false := by
      simpa using List.all_eq_true.1 around c hc
    simp only [token, List.mem_append] at hc solid
    rcases hc with (hc | hc) | hc
    · exact solid (.inl hc)
    · have digit := Nat.isDigit_of_mem_toDigits (by decide) (by decide) hc
      exact not_blank_of_isDigit digit
    · exact solid (.inr hc)
  last _ := by simp [token]
  head := rfl

/-- Each identifier in a text begins with an underscore that no other one begins with. -/
theorem length_le_count {raw : Text} {ks : List Nat} (distinct : ks.Nodup)
    (taken : ∀ k ∈ ks, token k <:+: raw) : ks.length ≤ raw.count '_' := by
  induction raw generalizing ks with
  | nil =>
    cases ks with
    | nil => exact Nat.le_refl _
    | cons k ks => exact absurd (List.eq_nil_of_infix_nil (taken k List.mem_cons_self)) (token_ne_nil k)
  | cons c t ih =>
    by_cases front : ∃ k ∈ ks, token k <+: c :: t
    · obtain ⟨k, hk, v, whole⟩ := front
      obtain ⟨body, shape, -⟩ := token_shape k
      have sign : c = '_' := by
        rw [shape] at whole
        exact (List.cons.inj whole).1.symm
      have others : ∀ j ∈ ks.erase k, token j <:+: t := by
        intro j hj
        obtain ⟨other, hj⟩ := distinct.mem_erase_iff.1 hj
        refine (List.infix_cons_iff.1 (taken j hj)).resolve_left ?_
        rintro ⟨v', whole'⟩
        exact other (token_inj (whole'.trans whole.symm))
      have fewer := ih (distinct.erase k) others
      rw [List.length_erase_of_mem hk] at fewer
      rw [sign, List.count_cons_self]
      omega
    · have behind : ∀ k ∈ ks, token k <:+: t := fun k hk =>
        (List.infix_cons_iff.1 (taken k hk)).resolve_left fun first => front ⟨k, hk, first⟩
      exact Nat.le_trans (ih distinct behind) List.count_le_count_cons

/-- A text cannot hold more identifiers than it has characters. -/
theorem exists_absent (raw : Text) (n : Nat) :
    ∃ k ∈ List.range' n (raw.length + 1), (token k).occursIn raw = false := by
  by_contra all
  have taken : ∀ k ∈ List.range' n (raw.length + 1), token k <:+: raw := by
    intro k hk
    by_contra missing
    exact all ⟨k, hk, Bool.eq_false_iff.2 fun found => missing (Text.occursIn_iff.1 found)⟩
  have many := length_le_count List.nodup_range' taken
  have few : raw.count '_' ≤ raw.length := List.count_le_length
  rw [List.length_range'] at many
  omega

/-- The first number whose identifier is not in the text. -/
theorem fresh_spec (raw : Text) (n : Nat) :
    n ≤ fresh raw n ∧ (token (fresh raw n)).occursIn raw = false ∧
      ∀ k, n ≤ k → k < fresh raw n → (token k).occursIn raw = true := by
  obtain ⟨k, hk, absent⟩ := exists_absent raw n
  unfold fresh
  cases h : (List.range' n (raw.length + 1)).find? fun k => !(token k).occursIn raw with
  | none =>
    have := List.find?_eq_none.1 h k hk
    simp [absent] at this
  | some j =>
    obtain ⟨found, mem, passed⟩ := List.find?_range'_eq_some.1 h
    exact ⟨(List.mem_range'_1.1 mem).1, by simpa using found, fun i hi hlt => by
      simpa using passed i hi hlt⟩

theorem le_fresh (raw : Text) (n : Nat) : n ≤ fresh raw n := (fresh_spec raw n).1

/-- Only one number is the first. -/
theorem fresh_unique {raw : Text} {n k : Nat} (least : n ≤ k) (absent : (token k).occursIn raw = false)
    (before : ∀ i, n ≤ i → i < k → (token i).occursIn raw = true) : fresh raw n = k := by
  obtain ⟨least', absent', before'⟩ := fresh_spec raw n
  rcases Nat.lt_trichotomy (fresh raw n) k with hlt | heq | hlt
  · rw [before _ least' hlt] at absent'
    cases absent'
  · exact heq
  · rw [before' k least hlt] at absent
    cases absent

/-- Texts with the same identifiers in them leave the same numbers free. -/
theorem fresh_congr {raw raw' : Text}
    (h : ∀ k, (token k).occursIn raw' = (token k).occursIn raw) (n : Nat) :
    fresh raw' n = fresh raw n := by
  obtain ⟨least, absent, before⟩ := fresh_spec raw n
  refine fresh_unique least ?_ fun k above below => ?_
  · rw [h, absent]
  · rw [h, before k above below]

/-- Identifiers are numbered upwards. -/
theorem number_spec (raw : Text) (n : Nat) (es : List Text) :
    ∃ ks : List Nat, (number raw n es).map (·.token) = ks.map token ∧
      ks.Pairwise (· < ·) ∧ (∀ k ∈ ks, n ≤ k) ∧ (number raw n es).map (·.expression) = es := by
  induction es generalizing n with
  | nil => exact ⟨[], rfl, .nil, by simp, rfl⟩
  | cons e es ih =>
    obtain ⟨ks, tokens, ascending, least, expressions⟩ := ih (fresh raw n + 1)
    have first := le_fresh raw n
    refine ⟨fresh raw n :: ks, ?_, ?_, ?_, ?_⟩
    · simp [number, tokens]
    · exact .cons (fun k hk => least k hk) ascending
    · intro k hk
      rcases List.mem_cons.1 hk with rfl | hk
      · exact first
      · have := least k hk
        omega
    · simp [number, expressions]

end HostSql.Mask
