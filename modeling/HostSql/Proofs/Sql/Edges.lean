import HostSql.Proofs.Sql.Lookahead
import HostSql.Proofs.Sql.Openings

/-! Where tokens over several lines begin and end. A word has one line, so such a token is a string, a
quoted name or a comment, or it starts with a sign; no word is cut by either end of it. -/
namespace HostSql.Sql.Lexer

/-- Characters that go on with a word in every dialect. -/
def inEveryWord (c : Char) : Bool := c.isAlphanum || c == '_'

/-- Neither end of the token that takes `c` and `n` characters of `t` lies inside a word. A mark before a
quote is the only letter that such a token starts with. -/
structure Bounded (c : Char) (t : Text) (n : Nat) : Prop where
  front : inEveryWord c = true → c ≠ '_' ∧ ∃ e, (t.take n).head? = some e ∧ inEveryWord e = false
  back : ∀ e, (c :: t.take n).getLast? = some e → inEveryWord e = true →
    (t.drop n).head?.any inEveryWord = false

section
variable {d : Dialect} {p : Char → Bool} {scan : Text → Option Nat} {c q : Char} {t : Text} {n : Nat}
  {kind : TokenKind}

theorem continuesWord_of_inEveryWord (h : inEveryWord c = true) (d : Dialect) : d.continuesWord c := by
  rw [inEveryWord, Bool.or_eq_true] at h
  rcases h with h | h
  · exact continuesWord_of_isAlphanum h d
  · rw [beq_iff_eq.1 h]
    cases d <;> decide

theorem newline_continuesWord (d : Dialect) : d.continuesWord '\n' = false := by
  cases d <;> decide

/-- A token that starts and ends with signs is bounded. -/
theorem bounded_of_last (hc : inEveryWord c = false) (hq : inEveryWord q = false)
    (last : (t.take n).getLast? = some q) : Bounded c t n where
  front h := absurd h (Bool.eq_false_iff.1 hc)
  back e he h := by
    rw [List.getLast?_cons, last] at he
    cases he
    exact absurd h (Bool.eq_false_iff.1 hq)

theorem bounded_of_ends (hc : inEveryWord c = false) (hq : inEveryWord q = false)
    (h : Ends scan q t n) : Bounded c t n :=
  bounded_of_last hc hq h.last.1

/-- So is a token that takes all that goes on with a word behind its sign. -/
theorem bounded_of_stop (hc : inEveryWord c = false)
    (stop : (t.drop n).head?.any d.continuesWord = false) : Bounded c t n where
  front h := absurd h (Bool.eq_false_iff.1 hc)
  back e _ _ := by
    cases rest : (t.drop n).head? with
    | none => rfl
    | some x =>
      rw [rest] at stop
      rw [Option.any_some, Bool.eq_false_iff]
      intro hx
      rw [Option.any_some, continuesWord_of_inEveryWord hx d] at stop
      cases stop

theorem take_run (p : Char → Bool) (t : Text) : t.take (run p t) = t.takeWhile p :=
  (List.prefix_iff_eq_take.1 (List.takeWhile_prefix p)).symm

theorem stop_run (p : Char → Bool) (t : Text) : (t.drop (run p t)).head?.any p = false := by
  obtain ⟨u, v, rfl, inside, stop⟩ := Text.exists_takeWhile p t
  rw [run, Text.takeWhile_stop inside stop, List.drop_left]
  exact stop

theorem not_mem_takeWhile (h : p c = false) (t : Text) : c ∉ t.takeWhile p := by
  intro mem
  rw [List.all_eq_true.1 List.all_takeWhile c mem] at h
  cases h

/-- A mark before a quote starts a bounded token. -/
theorem bounded_marked (h : marked d c t = some (some (kind, n))) : Bounded c t n := by
  obtain ⟨sign, r, string, scan, q, rfl, marks⟩ := exists_of_marked h
  have name : c ≠ '_' := by
    rintro rfl
    have bare : marked d '_' (sign ++ r) = none := rfl
    rw [bare] at h
    cases h
  rw [marks.reads] at h
  obtain ⟨k, hk, same⟩ := Option.map_eq_some_iff.1 (Option.some.inj h)
  cases same
  have last := (marks.ends r k hk).last.1
  have taken : (sign ++ r).take (k + sign.length) = sign ++ r.take k := by
    rw [Nat.add_comm, List.take_length_add_append]
  have signs : inEveryWord q = false ∧ ∃ e z, sign = e :: z ∧ inEveryWord e = false := by
    rcases marks.quote with ⟨rfl, rfl⟩ | ⟨rfl, rfl⟩ | ⟨rfl, rfl⟩
    · exact ⟨by decide, _, _, rfl, by decide⟩
    · exact ⟨by decide, _, _, rfl, by decide⟩
    · exact ⟨by decide, _, _, rfl, by decide⟩
  obtain ⟨closing, e, z, rfl, opening⟩ := signs
  constructor
  · intro _
    exact ⟨name, e, by rw [taken]; rfl, opening⟩
  · intro x hx word
    rw [taken, List.getLast?_cons, List.getLast?_append, last] at hx
    cases hx
    exact absurd word (Bool.eq_false_iff.1 closing)

/-- A number has one line. -/
theorem newline_number (d : Dialect) (c : Char) (t : Text) : '\n' ∉ t.take (number d c t).2 := by
  intro mem
  obtain ⟨w, z, rfl, before⟩ := List.eq_append_cons_of_mem (List.mem_of_mem_take mem)
  have stops : Stops d ('\n' :: z) := stops_cons (newline_continuesWord d) (by decide) z
  rw [number_append stops, List.take_append_of_le_length (number_le d c w)] at mem
  exact before (List.mem_of_mem_take mem)

/-- A line comment ends with a line break or with the text. -/
theorem lineCommentEnd_cases (t : Text) :
    (t.take (lineCommentEnd t)).getLast? = some '\n' ∨ t.drop (lineCommentEnd t) = [] := by
  obtain ⟨u, w, rfl, inside, stop⟩ := Text.exists_takeWhile (· != '\n') t
  rw [lineCommentEnd, run, Text.takeWhile_stop inside stop]
  cases w with
  | nil =>
    right
    simp
  | cons e z =>
    left
    have line : e = '\n' := by simpa using stop
    subst line
    rw [if_pos (by simp), List.take_length_add_append]
    exact List.getLast?_concat

theorem bounded_lineComment (hc : inEveryWord c = false)
    (h : (t.take n).getLast? = some '\n' ∨ t.drop n = []) : Bounded c t n := by
  rcases h with last | all
  · exact bounded_of_last hc (by decide) last
  · exact bounded_of_stop (d := .ansi) hc (by rw [all]; rfl)

theorem bounded_signed {s : Char} (hc : inEveryWord c = false) (hs : t.head? = some s) :
    Bounded c t (1 + lineCommentEnd (t.drop 1)) := by
  obtain ⟨z, rfl⟩ := List.head?_eq_some_iff.1 hs
  apply bounded_lineComment hc
  rw [Nat.add_comm, List.take_succ_cons, List.drop_succ_cons, List.getLast?_cons]
  rcases lineCommentEnd_cases z with last | all
  · left
    exact congrArg (fun o => some (o.getD s)) last
  · right
    exact all

theorem take_of_findOperator {operators : List String} (h : findOperator operators t = some n) :
    ∃ o ∈ operators, t.take n = o.toList := by
  obtain ⟨o, found, rfl⟩ := Option.map_eq_some_iff.1 h
  refine ⟨o, List.mem_of_find?_eq_some found, ?_⟩
  have starts : o.toList <+: t := isSome_strip?_iff.1 (by simpa using List.find?_some found)
  rw [← String.length_toList]
  exact (List.prefix_iff_eq_take.1 starts).symm

theorem newline_operators : ∀ o ∈ plainOperators ++ openOperators, '\n' ∉ o.toList := by
  decide

/-- An operator has one line. -/
theorem newline_operator (h : (operator? d c t).getD (.stray, 0) = (kind, n)) : '\n' ∉ t.take n := by
  have behind {k : Nat} (plain : '\n' ∉ (c :: t).take k) : '\n' ∉ t.take (k - 1) := by
    cases k with
    | zero => exact List.not_mem_nil
    | succ k => exact fun mem => plain (List.mem_cons_of_mem c mem)
  rw [operator?_eq] at h
  split at h
  · next slashes =>
    cases h
    simp only [Bool.and_eq_true, beq_iff_eq] at slashes
    obtain ⟨z, rfl⟩ := List.head?_eq_some_iff.1 slashes.1.2
    simp
  · split at h
    · next k found =>
      cases h
      obtain ⟨o, mem, taken⟩ := take_of_findOperator found
      apply behind
      rw [taken]
      exact newline_operators o (List.mem_append_left _ mem)
    · cases found : findOperator openOperators (c :: t) with
      | none =>
        rw [found] at h
        cases h
        exact List.not_mem_nil
      | some k =>
        rw [found] at h
        obtain ⟨o, mem, taken⟩ := take_of_findOperator found
        have plain := newline_operators o (List.mem_append_right _ mem)
        have same : openOperator d (c :: t) k = (kind, n) := h
        rw [openOperator] at same
        split at same
        · cases same
          apply behind
          rw [List.take_add, taken, take_run, List.mem_append, not_or]
          exact ⟨plain, not_mem_takeWhile (by cases d <;> decide) _⟩
        · cases same
          apply behind
          rw [taken]
          exact plain

/-- An at sign takes whatever follows it where it starts words, and then goes on with the word. -/
theorem bounded_atSign (h : atSign d t = (kind, n)) (broken : '\n' ∈ t.take n) : Bounded '@' t n := by
  have sign : inEveryWord '@' = false := by decide
  cases t with
  | nil => simp at broken
  | cons e t =>
    by_cases doubled : e = '@'
    · subst doubled
      cases t with
      | nil =>
        cases h
        simp at broken
      | cons e t =>
        rw [atSign_doubled] at h
        split at h
        · cases h
          simp at broken
        · cases h
          apply bounded_of_stop (d := d) sign
          rw [Nat.add_comm, List.drop_succ_cons, List.drop_succ_cons]
          exact stop_run _ t
    · rw [atSign_cons doubled] at h
      split at h
      · next other =>
        cases h
        rcases other with rfl | rfl <;> simp at broken
      · split at h
        · cases h
          simp at broken
        · cases h
          apply bounded_of_stop (d := d) sign
          rw [Nat.add_comm, List.drop_succ_cons]
          exact stop_run _ t

theorem bounded_dollar (h : dollar t = some (kind, n)) (broken : '\n' ∈ t.take n) : Bounded '$' t n := by
  have sign : inEveryWord '$' = false := by decide
  by_cases doubled : t.head? = some '$'
  · obtain ⟨t, rfl⟩ := List.head?_eq_some_iff.1 doubled
    obtain ⟨k, hk, same⟩ := Option.map_eq_some_iff.1 h
    cases same
    apply bounded_of_last sign sign
    rw [List.take_succ_cons, List.getLast?_cons, (closes_dollarsEnd hk).ends.last.1]
    rfl
  · obtain ⟨name, v, rfl, all, stop⟩ := Text.exists_takeWhile continuesTag t
    by_cases tagged : v.head? = some '$'
    · obtain ⟨body, rfl⟩ := List.head?_eq_some_iff.1 tagged
      have filled : name ≠ [] := by
        rintro rfl
        exact doubled rfl
      rw [dollar_tag all filled] at h
      obtain ⟨k, hk, same⟩ := Option.map_eq_some_iff.1 h
      cases same
      apply bounded_of_last sign sign
      rw [Nat.add_assoc, List.take_length_add_append, Nat.add_comm, List.take_succ_cons,
        List.getLast?_append, List.getLast?_cons, (closes_taggedEnd hk).ends.last.1]
      rfl
    · rw [dollar_parameter all stop tagged] at h
      cases h
      rw [List.take_left] at broken
      exact absurd (all _ broken) (by decide)

theorem bounded_plain (h : plain d c t = some (kind, n)) (broken : '\n' ∈ t.take n) : Bounded c t n := by
  unfold plain at h
  split at h
  · next hash =>
    cases h
    have sign : c = '#' := by
      simp only [Bool.and_eq_true, beq_iff_eq] at hash
      exact hash.1.1
    subst sign
    apply bounded_of_stop (d := d) (by decide)
    rw [← List.drop_drop]
    exact stop_run _ _
  split at h
  · exact absurd broken (newline_operator (Option.some.inj h))
  split at h
  · next sign =>
    obtain rfl := beq_iff_eq.1 sign
    exact bounded_atSign (Option.some.inj h) broken
  split at h
  · next sign =>
    obtain rfl := beq_iff_eq.1 sign
    split at h
    · cases h
      cases t with
      | nil => simp at broken
      | cons e t =>
        have one : min 1 (e :: t).length = 1 := by
          rw [List.length_cons]
          omega
        rw [one] at broken ⊢
        rw [List.take_succ_cons, List.take_zero, List.mem_singleton] at broken
        rw [← broken]
        exact bounded_of_last (by decide) (q := '\n') (by decide) rfl
    · cases h
      rw [take_run] at broken
      exact absurd broken (not_mem_takeWhile (by decide) t)
  split at h
  · cases h
    rw [take_run] at broken
    exact absurd broken (not_mem_takeWhile (newline_continuesWord d) t)
  split at h
  · next sign =>
    obtain rfl := beq_iff_eq.1 sign
    exact bounded_dollar h broken
  split at h
  · cases h
    simp at broken
  · exact absurd broken (newline_operator (Option.some.inj h))

theorem bounded_unmarked (h : unmarked d c t = some (kind, n)) (broken : '\n' ∈ t.take n) :
    Bounded c t n := by
  unfold unmarked at h
  split at h
  · next quote =>
    obtain rfl := beq_iff_eq.1 quote
    obtain ⟨k, hk, same⟩ := Option.map_eq_some_iff.1 h
    cases same
    exact bounded_of_ends (by decide) (by decide) (ends_stringEnd hk)
  split at h
  · next quote =>
    obtain rfl := beq_iff_eq.1 (Bool.and_eq_true_iff.1 quote).1
    obtain ⟨k, hk, same⟩ := Option.map_eq_some_iff.1 h
    cases same
    exact bounded_of_ends (by decide) (by decide) (ends_stringEnd hk)
  split at h
  · next quoted =>
    obtain ⟨k, hk, same⟩ := Option.map_eq_some_iff.1 h
    cases same
    have opens := (Bool.and_eq_true_iff.1 quoted).1
    have signs : inEveryWord c = false ∧ inEveryWord (Dialect.closesQuotedName c) = false := by
      rcases mem_of_opensQuotedName opens with rfl | rfl | rfl <;> decide
    exact bounded_of_ends signs.1 signs.2 (ends_quotedEnd hk)
  split at h
  · have oneLine := newline_number d c t
    rw [Option.some.inj h] at oneLine
    exact absurd broken oneLine
  split at h
  · next dashes =>
    cases h
    simp only [Bool.and_eq_true, beq_iff_eq] at dashes
    obtain ⟨rfl, second⟩ := dashes
    exact bounded_signed (by decide) second
  split at h
  · next opens =>
    obtain ⟨k, hk, same⟩ := Option.map_eq_some_iff.1 h
    cases same
    simp only [Bool.and_eq_true, beq_iff_eq] at opens
    obtain ⟨rfl, second⟩ := opens
    obtain ⟨z, rfl⟩ := List.head?_eq_some_iff.1 second
    apply bounded_of_last (q := '/') (by decide) (by decide)
    rw [List.take_succ_cons, List.getLast?_cons]
    exact congrArg (fun o => some (o.getD '*')) (closes_blockCommentEnd hk).ends.last.1
  split at h
  · next slashes =>
    cases h
    simp only [Bool.and_eq_true, beq_iff_eq] at slashes
    obtain ⟨⟨rfl, second⟩, -⟩ := slashes
    exact bounded_signed (by decide) second
  split at h
  · next hash =>
    cases h
    obtain rfl := beq_iff_eq.1 (Bool.and_eq_true_iff.1 hash).1
    exact bounded_lineComment (by decide) (lineCommentEnd_cases t)
  · exact bounded_plain h broken

/-- No word is cut by the ends of a token with a line break in it. -/
theorem bounded_of_first (h : first d c t = some (kind, n)) (broken : '\n' ∈ c :: t.take n) :
    Bounded c t n := by
  have blank {e : Char} (he : inEveryWord e = false) : Bounded e t 0 :=
    ⟨fun word => (Bool.eq_false_iff.1 he word).elim, fun _ last word => by
      cases last
      exact (Bool.eq_false_iff.1 he word).elim⟩
  unfold first at h
  split at h
  · next space =>
    cases h
    apply blank
    simp only [Bool.or_eq_true, beq_iff_eq] at space
    rcases space with (rfl | rfl) | rfl <;> decide
  · next solid =>
    have behind : '\n' ∈ t.take n := by
      refine (List.mem_cons.1 broken).resolve_left ?_
      rintro rfl
      exact solid (by decide)
    split at h
    · next ret =>
      obtain rfl := beq_iff_eq.1 ret
      cases h
      split
      · next line =>
        obtain ⟨z, rfl⟩ := List.head?_eq_some_iff.1 (beq_iff_eq.1 line)
        exact bounded_of_last (by decide) (q := '\n') (by decide) rfl
      · exact blank (by decide)
    · split at h
      · next token found =>
        rw [h] at found
        exact bounded_marked found
      · exact bounded_unmarked h behind

end
end HostSql.Sql.Lexer
