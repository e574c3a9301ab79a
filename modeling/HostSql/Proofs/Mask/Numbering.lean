import HostSql.Proofs.Mask.RoundTrip
import Mathlib.Data.List.Intervals
import Mathlib.Order.Bounds.Defs

/-! Numbers for identifiers. A search takes the counter's number and counts on, over and over, until the
text holds no identifier with the number. It has no bound, but it ends, because a text has no room for
more identifiers than characters; and the searches for all expressions of a text together take the first
numbers that the text leaves free, each of them once. -/
namespace HostSql.Mask

/-- A search that begins with the counter at `n` ends with the number `k` and the counter at `c`. -/
inductive Search (raw : Text) : Nat → Nat → Nat → Prop
  | stop {n : Nat} (free : (token n).occursIn raw = false) : Search raw n n (n + 1)
  | turn {n k c : Nat} (taken : (token n).occursIn raw = true) (more : Search raw (n + 1) k c) :
      Search raw n k c

/-- A search for each of the expressions, with the counter that the one before it left. -/
inductive Searches (raw : Text) : Nat → List Text → List Placeholder → Nat → Prop
  | done (n : Nat) : Searches raw n [] [] n
  | next (e : Text) {n k c c' : Nat} {es : List Text} {ps : List Placeholder}
      (first : Search raw n k c) (more : Searches raw c es ps c') :
      Searches raw n (e :: es) (⟨token k, e⟩ :: ps) c'

/-- The numbers from `n` on and below `c` whose identifiers the text does not hold. -/
def freeNumbers (raw : Text) (n c : Nat) : List Nat :=
  (List.Ico n c).filter fun k => !(token k).occursIn raw

/-- Identifiers with the free numbers below `c` in their order, none of which stands in another one. -/
structure Numbered (raw : Text) (ps : List Placeholder) (c : Nat) : Prop where
  ascending : ∃ ks : List Nat, ps.map (·.token) = ks.map token ∧ ks.Pairwise (· < ·) ∧
    ∀ k, k ∈ ks ↔ k < c ∧ ¬ token k <:+: raw
  distinct : (ps.map (·.token)).Nodup
  apart : (ps.map (·.token)).Pairwise fun a b => ¬ a <:+: b ∧ ¬ b <:+: a

section
variable {raw : Text} {n k c c' : Nat} {es : List Text} {ps ps' : List Placeholder}

/-! ## One search -/

theorem fresh_eq_self (free : (token n).occursIn raw = false) : fresh raw n = n := by
  apply fresh_unique (Nat.le_refl n) free
  omega

theorem fresh_eq_succ (taken : (token n).occursIn raw = true) : fresh raw n = fresh raw (n + 1) := by
  obtain ⟨least, absent, before⟩ := fresh_spec raw (n + 1)
  refine fresh_unique (by omega) absent fun k above below => ?_
  rcases Nat.lt_or_eq_of_le above with later | rfl
  · exact before k later below
  · exact taken

/-- Each turn leaves the first free number where it is. -/
theorem Search.eq_fresh (h : Search raw n k c) : k = fresh raw n ∧ c = fresh raw n + 1 := by
  induction h with
  | stop free => rw [fresh_eq_self free]; exact ⟨rfl, rfl⟩
  | turn taken more ih => rwa [fresh_eq_succ taken]

/-- The search ends: with each turn the first free number is one turn nearer. -/
theorem search_fresh (raw : Text) (n : Nat) : Search raw n (fresh raw n) (fresh raw n + 1) := by
  generalize distance : fresh raw n - n = d
  have least := le_fresh raw n
  induction d generalizing n with
  | zero =>
    have here : fresh raw n = n := by omega
    have absent := (fresh_spec raw n).2.1
    rw [here] at absent ⊢
    exact .stop absent
  | succ d ih =>
    have taken := (fresh_spec raw n).2.2 n (Nat.le_refl n) (by omega)
    have same := fresh_eq_succ taken
    rw [same] at distance ⊢
    exact .turn taken (ih (n + 1) (by omega) (le_fresh raw (n + 1)))

theorem search_iff : Search raw n k c ↔ k = fresh raw n ∧ c = fresh raw n + 1 := by
  refine ⟨Search.eq_fresh, ?_⟩
  rintro ⟨rfl, rfl⟩
  exact search_fresh raw n

theorem isLeast_fresh (raw : Text) (n : Nat) :
    IsLeast {k | n ≤ k ∧ ¬ token k <:+: raw} (fresh raw n) := by
  obtain ⟨least, absent, before⟩ := fresh_spec raw n
  constructor
  · refine ⟨least, ?_⟩
    intro occurs
    rw [Text.occursIn_iff.2 occurs] at absent
    cases absent
  · rintro k ⟨above, missing⟩
    by_contra below
    exact missing (Text.occursIn_iff.1 (before k above (Nat.lt_of_not_le below)))

/-! ## All searches of a text -/

theorem Searches.eq_number (h : Searches raw n es ps c) : ps = number raw n es := by
  induction h with
  | done => rfl
  | next e first more ih =>
    obtain ⟨rfl, rfl⟩ := first.eq_fresh
    rw [ih, number]

theorem exists_searches (raw : Text) (n : Nat) (es : List Text) :
    ∃ c, Searches raw n es (number raw n es) c := by
  induction es generalizing n with
  | nil => exact ⟨n, .done n⟩
  | cons e es ih =>
    obtain ⟨c, more⟩ := ih (fresh raw n + 1)
    exact ⟨c, .next e (search_fresh raw n) more⟩

theorem Searches.counter_unique (h : Searches raw n es ps c) (h' : Searches raw n es ps' c') :
    c' = c := by
  induction h generalizing ps' with
  | done => cases h'; rfl
  | next e first more ih =>
    cases h' with
    | next _ first' more' =>
      obtain ⟨rfl, rfl⟩ := first.eq_fresh
      obtain ⟨rfl, rfl⟩ := first'.eq_fresh
      exact ih more'

theorem mem_freeNumbers : k ∈ freeNumbers raw n c ↔ (n ≤ k ∧ k < c) ∧ ¬ token k <:+: raw := by
  rw [freeNumbers, List.mem_filter, List.Ico.mem, ← Text.occursIn_iff]
  simp

theorem pairwise_freeNumbers (raw : Text) (n c : Nat) : (freeNumbers raw n c).Pairwise (· < ·) :=
  (List.Ico.pairwise_lt n c).filter _

theorem freeNumbers_append {m : Nat} (hm : n ≤ m) (hc : m ≤ c) :
    freeNumbers raw n c = freeNumbers raw n m ++ freeNumbers raw m c := by
  rw [freeNumbers, ← List.Ico.append_consecutive hm hc, List.filter_append]
  rfl

/-- A search leaves the counter behind one free number. -/
theorem freeNumbers_of_search (h : Search raw n k c) : n < c ∧ freeNumbers raw n c = [k] := by
  induction h with
  | @stop n free => exact ⟨Nat.lt_succ_self n, by simp [freeNumbers, free]⟩
  | @turn n k c taken more ih =>
    refine ⟨by omega, ?_⟩
    rw [freeNumbers, List.Ico.eq_cons (by omega), List.filter_cons_of_neg (by simp [taken])]
    exact ih.2

/-- The searches leave the counter behind one free number for each expression. -/
theorem freeNumbers_of_searches (h : Searches raw n es ps c) :
    n ≤ c ∧ ps.map (·.token) = (freeNumbers raw n c).map token ∧
      (freeNumbers raw n c).length = es.length := by
  induction h with
  | done n => simp [freeNumbers]
  | next e first more ih =>
    obtain ⟨forward, one⟩ := freeNumbers_of_search first
    obtain ⟨onward, tokens, count⟩ := ih
    rw [freeNumbers_append (Nat.le_of_lt forward) onward, one]
    refine ⟨by omega, ?_, ?_⟩
    · rw [List.map_cons, tokens]
      rfl
    · rw [List.length_append, List.length_singleton, count, List.length_cons, Nat.add_comm]

theorem Searches.numbered (h : Searches raw 0 es ps c) : Numbered raw ps c := by
  obtain ⟨-, tokens, -⟩ := freeNumbers_of_searches h
  have ascending := pairwise_freeNumbers raw 0 c
  have apart : (ps.map (·.token)).Pairwise fun a b => ¬ a <:+: b ∧ ¬ b <:+: a := by
    rw [tokens, List.pairwise_map]
    refine ascending.imp fun hlt => ?_
    rw [token_infix_iff, token_infix_iff]
    omega
  refine ⟨⟨freeNumbers raw 0 c, tokens, ascending, fun k => ?_⟩, ?_, apart⟩
  · simp [mem_freeNumbers]
  · exact apart.imp fun ⟨outside, _⟩ same => outside (same ▸ List.infix_refl _)

/-- Below the counter there are only the numbers of the expressions and those that the text holds. -/
theorem Searches.counter_le (h : Searches raw n es ps c) : c ≤ n + es.length + raw.count '_' := by
  obtain ⟨-, -, free⟩ := freeNumbers_of_searches h
  have taken : ∀ k ∈ (List.Ico n c).filter fun k => (token k).occursIn raw, token k <:+: raw := by
    intro k hk
    exact Text.occursIn_iff.1 (List.mem_filter.1 hk).2
  have passed := length_le_count ((List.Ico.nodup n c).filter _) taken
  have all := List.length_eq_length_filter_add (l := List.Ico n c) fun k => (token k).occursIn raw
  rw [List.Ico.length] at all
  rw [freeNumbers] at free
  omega

/-- Every turn of a search but the last one passes an identifier in the text. -/
theorem fresh_le (raw : Text) (n : Nat) : fresh raw n ≤ n + raw.count '_' := by
  have one : Searches raw n [[]] _ _ := .next [] (search_fresh raw n) (.done (fresh raw n + 1))
  have counter := one.counter_le
  rw [List.length_singleton] at counter
  omega

theorem length_le_count_braces {parts : List (Text × Text)}
    (braced : ∀ x ∈ parts, x.1.head? = some '{') :
    parts.length ≤ (parts.flatMap fun (e, u) => e ++ u).count '{' := by
  induction parts with
  | nil => exact Nat.zero_le _
  | cons x parts ih =>
    obtain ⟨here, others⟩ := List.forall_mem_cons.1 braced
    obtain ⟨e, opening⟩ := List.head?_eq_some_iff.1 here
    have more := ih others
    rw [List.flatMap_cons, List.count_append, List.count_append, opening, List.count_cons_self,
      List.length_cons]
    omega

/-- Every expression begins with a brace of its own. -/
theorem length_split_le (raw : Text) : (split raw).2.length ≤ raw.count '{' := by
  obtain ⟨whole, braced⟩ := split_spec raw
  have within := congrArg (List.count '{') whole
  rw [List.count_append] at within
  calc (split raw).2.length
      ≤ ((split raw).2.flatMap fun (e, u) => e ++ u).count '{' := length_le_count_braces braced
    _ ≤ raw.count '{' := by rw [within]; exact Nat.le_add_left _ _

/-- Each number below the counter has a character of its own in the text: the brace of an expression or
the underscore that an identifier begins with. -/
theorem Searches.counter_le_length (h : Searches raw 0 ((split raw).2.map (·.1)) ps c) :
    c ≤ raw.length := by
  have numbers := h.counter_le
  have expressions := length_split_le raw
  have braces : raw.count '{' ≤ raw.countP (fun d => ¬ (d == '_') = true) :=
    List.countP_mono_left fun d _ brace => by simp_all
  have all := List.length_eq_countP_add_countP (l := raw) (· == '_')
  rw [List.length_map, List.count] at numbers
  omega

/-- Every search ends. It takes the least number from the counter on whose identifier the text does not
hold, leaves the counter behind it, and passes no more numbers than the text has characters. Over the
searches for all expressions of a text, whether or not it can be masked, the numbers go up, the
identifiers are distinct and none of them stands in another one; the counter comes to the number of
characters at most, so a word that holds this number holds the counter. -/
theorem searches_end (raw : Text) :
    (∀ n, (∀ k c, Search raw n k c ↔ k = fresh raw n ∧ c = fresh raw n + 1) ∧
      IsLeast {k | n ≤ k ∧ ¬ token k <:+: raw} (fresh raw n) ∧ fresh raw n ≤ n + raw.length) ∧
    ∃ ps c, (∀ ps' c', Searches raw 0 ((split raw).2.map (·.1)) ps' c' ↔ ps' = ps ∧ c' = c) ∧
      Numbered raw ps c ∧ c ≤ raw.length ∧ ps = number raw 0 ((split raw).2.map (·.1)) ∧
      ∀ m, mask raw = some m → m.placeholders = ps := by
  constructor
  · intro n
    refine ⟨fun k c => search_iff, isLeast_fresh raw n, ?_⟩
    have passed := fresh_le raw n
    have few : raw.count '_' ≤ raw.length := List.count_le_length
    omega
  · obtain ⟨c, searches⟩ := exists_searches raw 0 ((split raw).2.map (·.1))
    refine ⟨_, c, ?_, searches.numbered, searches.counter_le_length, rfl, ?_⟩
    · intro ps' c'
      constructor
      · intro h
        exact ⟨h.eq_number, searches.counter_unique h⟩
      · rintro ⟨rfl, rfl⟩
        exact searches
    · intro m masked
      rw [(mask_spec masked).2.1, placeholders_of_pieces]

/-- Two identifiers that share their underscores, and one more that stands in an expression. -/
def tokenLike : Text :=
  "__ESQL_MASK_0__ESQL_MASK_1__ \x7ba['__ESQL_MASK_3__']\x7d\x7bb\x7d \x7bc\x7d".toList

theorem searches_end_tokenLike :
    ∃ m c, mask tokenLike = some m ∧ Numbered tokenLike m.placeholders c ∧
      Searches tokenLike 0 ((split tokenLike).2.map (·.1)) m.placeholders c ∧
      m.placeholders.map (·.token) = [token 2, token 4, token 5] := by
  have masked : (mask tokenLike).isSome = true := by with_unfolding_all decide
  have tokens : (number tokenLike 0 ((split tokenLike).2.map (·.1))).map (·.token) =
      [token 2, token 4, token 5] := by with_unfolding_all decide
  obtain ⟨m, h⟩ := Option.isSome_iff_exists.1 masked
  obtain ⟨-, ps, c, searches, numbered, -, rfl, placeholders⟩ := searches_end tokenLike
  rw [← placeholders m h] at searches numbered tokens
  exact ⟨m, c, h, numbered, (searches _ _).2 ⟨rfl, rfl⟩, tokens⟩

end

end HostSql.Mask
