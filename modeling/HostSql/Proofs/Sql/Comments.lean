import HostSql.Proofs.Sql.Exchange

/-! Which tokens are comments, and how far a block comment goes. -/
namespace HostSql.Sql.Lexer

section
variable {d : Dialect} {c : Char} {t : Text} {n m : Nat} {kind : TokenKind}

theorem number_ne_lineComment (d : Dialect) (c : Char) (t : Text) (m : Nat) :
    (number d c t).1 ≠ .lineComment m := by
  rw [number_eq]
  split
  · simp
  · split
    · simp
    · rw [numberEnd]
      split
      · simp
      · split <;> simp

theorem atSign_ne_lineComment (d : Dialect) (t : Text) (m : Nat) : (atSign d t).1 ≠ .lineComment m := by
  cases t with
  | nil => nofun
  | cons e t =>
    by_cases doubled : e = '@'
    · subst doubled
      cases t with
      | nil => nofun
      | cons e t =>
        rw [atSign_doubled]
        split <;> simp
    · rw [atSign_cons doubled]
      split
      · simp
      · split <;> simp

theorem operator?_ne_lineComment (d : Dialect) (c : Char) (t : Text) (m : Nat) :
    ((operator? d c t).getD (.stray, 0)).1 ≠ .lineComment m := by
  rw [operator?_eq]
  split
  · simp
  · split
    · simp
    · cases findOperator openOperators (c :: t) with
      | none => simp
      | some n =>
        simp only [Option.map_some, Option.getD_some, openOperator]
        split <;> simp

theorem dollar_ne_lineComment (h : dollar t = some (kind, n)) (m : Nat) : kind ≠ .lineComment m := by
  unfold dollar at h
  split at h
  · obtain ⟨k, -, same⟩ := Option.map_eq_some_iff.1 h
    cases same
    simp
  · dsimp only at h
    split at h
    · obtain ⟨k, -, same⟩ := Option.map_eq_some_iff.1 h
      cases same
      simp
    · cases h
      simp

theorem plain_ne_lineComment (h : plain d c t = some (kind, n)) (m : Nat) : kind ≠ .lineComment m := by
  have operator (h : some ((operator? d c t).getD (.stray, 0)) = some (kind, n)) : kind ≠ .lineComment m := by
    have := operator?_ne_lineComment d c t m
    rwa [Option.some.inj h] at this
  unfold plain at h
  split at h
  · cases h
    simp
  split at h
  · exact operator h
  split at h
  · have := atSign_ne_lineComment d t m
    rwa [Option.some.inj h] at this
  split at h
  · split at h <;> cases h <;> simp
  split at h
  · cases h
    simp
  split at h
  · exact dollar_ne_lineComment h m
  split at h
  · cases h
    simp
  · exact operator h

/-- A line comment starts with its sign. -/
theorem opensComment_of_first (h : first d c t = some (.lineComment m, n)) : OpensComment d (c :: t) := by
  have mapped {scan : Option Nat} {f : Nat → TokenKind × Nat} (hf : ∀ n, (f n).1 ≠ .lineComment m)
      (h : scan.map f = some (.lineComment m, n)) : False := by
    obtain ⟨k, -, same⟩ := Option.map_eq_some_iff.1 h
    exact hf k (by rw [same])
  unfold first at h
  split at h
  · cases h
  split at h
  · cases h
  split at h
  · next token found =>
    obtain ⟨sign, r, string, scan, q, rfl, marks⟩ := exists_of_marked found
    rw [marks.reads] at found
    cases found
    exact (mapped (by simp) h).elim
  unfold unmarked at h
  split at h
  · exact (mapped (by simp) h).elim
  split at h
  · exact (mapped (by simp) h).elim
  split at h
  · exact (mapped (by simp) h).elim
  split at h
  · have := number_ne_lineComment d c t m
    rw [Option.some.inj h] at this
    exact absurd rfl this
  split at h
  · next dashes =>
    simp only [Bool.and_eq_true, beq_iff_eq] at dashes
    obtain ⟨z, rfl⟩ := List.head?_eq_some_iff.1 dashes.2
    rw [dashes.1]
    exact .dashes z
  split at h
  · exact (mapped (by simp) h).elim
  split at h
  · next slashes =>
    simp only [Bool.and_eq_true, beq_iff_eq] at slashes
    obtain ⟨z, rfl⟩ := List.head?_eq_some_iff.1 slashes.1.2
    rw [slashes.1.1]
    exact .slashes z slashes.2
  split at h
  · next hash =>
    simp only [Bool.and_eq_true, beq_iff_eq] at hash
    rw [hash.1]
    exact .hash t hash.2
  · exact absurd rfl (plain_ne_lineComment h m)

/-- The sign of a block comment opens one in every dialect. -/
theorem first_blockComment (d : Dialect) (t : Text) :
    first d '/' ('*' :: t) = (blockCommentEnd 0 ' ' t).map fun n => (.blockComment, n + 1) := by
  have bare : marked d '/' ('*' :: t) = none := rfl
  have unquoted : quotedWord? d '/' ('*' :: t) = false := by
    have : d.opensQuotedName '/' = false := by cases d <;> decide
    simp [quotedWord?, this]
  rw [first, if_neg (by decide), if_neg (by decide), bare]
  dsimp only
  rw [unmarked, if_neg (by decide), if_neg (by simp), if_neg (by simp [unquoted]), if_neg (by decide),
    if_neg (by simp), if_pos (by rfl)]
  rfl

theorem occursIn_pair (a b x y : Char) (t : Text) :
    Text.occursIn [a, b] (x :: y :: t) = (a == x && b == y || Text.occursIn [a, b] (y :: t)) := by
  rw [Text.occursIn, Text.splitFirst?, Text.strip?, Text.strip?, Text.strip?]
  by_cases hx : a = x
  · by_cases hy : b = y
    · simp [hx, hy]
    · simp [hx, hy, Text.occursIn]
  · simp [hx, Text.occursIn]

theorem occursIn_pair_single (a b x : Char) : Text.occursIn [a, b] [x] = false := by
  by_cases hx : a = x <;> simp [Text.occursIn, Text.splitFirst?, Text.strip?, hx]

theorem blockCommentEnd_ne_zero (depth : Nat) (last : Char) (t : Text) :
    blockCommentEnd depth last t ≠ some 0 := by
  fun_cases blockCommentEnd depth last t <;> simp

/-- A comment whose text does not close it ends behind its text exactly if the text opens no other one. -/
theorem blockCommentEnd_body {depth : Nat} {last : Char} {body : Text}
    (h : Text.occursIn ['*', '/'] (last :: body) = false) (r : Text) :
    blockCommentEnd depth last (body ++ ' ' :: '*' :: '/' :: r) = some (body.length + 3) ↔
      depth = 0 ∧ Text.occursIn ['/', '*'] (last :: body) = false := by
  induction body generalizing depth last with
  | nil =>
    rw [List.nil_append, blockCommentEnd, if_neg (by simp), if_neg (by simp), blockCommentEnd,
      if_neg (by simp), if_neg (by simp), blockCommentEnd, if_neg (by simp), if_pos ⟨rfl, rfl⟩,
      occursIn_pair_single]
    by_cases outer : depth = 0
    · simp [outer]
    · have := blockCommentEnd_ne_zero (depth - 1) '/' r
      simp [outer, this]
  | cons c body ih =>
    rw [occursIn_pair, Bool.or_eq_false_iff] at h
    have closing : ¬(last = '*' ∧ c = '/') := by
      rintro ⟨rfl, rfl⟩
      exact absurd h.1 (by decide)
    have longer (x : Option Nat) : x.map (· + 1) = some ((c :: body).length + 3) ↔ x = some (body.length + 3) := by
      cases x with
      | none => simp
      | some k =>
        rw [Option.map_some, Option.some.injEq, Option.some.injEq, List.length_cons]
        omega
    rw [List.cons_append, blockCommentEnd, occursIn_pair]
    by_cases opens : last = '/' ∧ c = '*'
    · rw [if_pos opens, longer, ih h.2]
      simp [opens]
    · rw [if_neg opens, if_neg closing, longer, ih h.2]
      have plain : ('/' == last && '*' == c) = false := by
        rw [Bool.eq_false_iff]
        intro same
        simp only [Bool.and_eq_true, beq_iff_eq] at same
        exact opens ⟨same.1.symm, same.2.symm⟩
      rw [plain, Bool.false_or]

theorem first_bar (d : Dialect) (t : Text) :
    first d '|' t = some ((operator? d '|' t).getD (.stray, 0)) := by
  have bare : marked d '|' t = none := rfl
  have unquoted : quotedWord? d '|' t = false := by
    have : d.opensQuotedName '|' = false := by cases d <;> decide
    simp [quotedWord?, this]
  have letter : d.startsWord '|' = false := by cases d <;> decide
  rw [first, if_neg (by decide), if_neg (by decide), bare]
  dsimp only
  rw [unmarked, if_neg (by decide), if_neg (by simp), if_neg (by simp [unquoted]), if_neg (by decide),
    if_neg (by simp), if_neg (by simp), if_neg (by simp), if_neg (by simp), plain, if_neg (by simp),
    if_neg (by decide), if_neg (by decide), if_neg (by decide), if_neg (by simp [letter]),
    if_neg (by decide), if_neg (by decide)]

theorem first_slashes (d : Dialect) (t : Text) : first d '/' ('/' :: t) =
    if d.hasSlashComments then some (.lineComment 2, 1 + lineCommentEnd t)
    else some ((operator? d '/' ('/' :: t)).getD (.stray, 0)) := by
  have bare : marked d '/' ('/' :: t) = none := rfl
  have unquoted : quotedWord? d '/' ('/' :: t) = false := by
    have : d.opensQuotedName '/' = false := by cases d <;> decide
    simp [quotedWord?, this]
  have letter : d.startsWord '/' = false := by cases d <;> decide
  rw [first, if_neg (by decide), if_neg (by decide), bare]
  dsimp only
  rw [unmarked, if_neg (by decide), if_neg (by simp), if_neg (by simp [unquoted]), if_neg (by decide),
    if_neg (by simp), if_neg (by simp)]
  cases d.hasSlashComments with
  | true => rfl
  | false =>
    rw [if_neg (by simp), if_neg (by simp), plain, if_neg (by simp), if_neg (by decide), if_neg (by decide),
      if_neg (by decide), if_neg (by simp [letter]), if_neg (by decide), if_neg (by decide)]
    rfl

/-- Such a token takes the slash behind it. -/
theorem lt_of_joinsSlash {w z : Text} (joins : joinsSlash d (c :: w) = true)
    (h : first d c (w ++ '/' :: z) = some (kind, n)) : w.length < n := by
  simp only [joinsSlash, Bool.or_eq_true, Bool.and_eq_true, beq_iff_eq] at joins
  rcases joins with (joins | joins) | ⟨joins, reads⟩
  · obtain ⟨rfl, rfl⟩ := List.cons.inj joins
    have signs : operator? d '|' ('/' :: z) = some (openOperator d ('|' :: '/' :: z) 2) := rfl
    have taken := le_openOperator d ('|' :: '/' :: z) 2
    rw [List.nil_append, first_bar, signs] at h
    have same : openOperator d ('|' :: '/' :: z) 2 = (kind, n) := Option.some.inj h
    rw [same] at taken
    exact taken
  · obtain ⟨rfl, rfl⟩ := List.cons.inj joins
    have signs : operator? d '|' ('|' :: '/' :: z) = some (openOperator d ('|' :: '|' :: '/' :: z) 3) := rfl
    have taken := le_openOperator d ('|' :: '|' :: '/' :: z) 3
    rw [List.singleton_append, first_bar, signs] at h
    have same : openOperator d ('|' :: '|' :: '/' :: z) 3 = (kind, n) := Option.some.inj h
    rw [same] at taken
    exact taken
  · obtain ⟨rfl, rfl⟩ := List.cons.inj joins
    rw [List.nil_append, first_slashes] at h
    split at h
    · cases h
      rw [List.length_nil]
      omega
    · next comments =>
      have divides := reads.resolve_left comments
      rw [operator?, if_pos (by simp [divides])] at h
      cases h
      exact Nat.one_pos

end
end HostSql.Sql.Lexer
