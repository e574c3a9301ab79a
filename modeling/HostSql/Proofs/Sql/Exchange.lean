import HostSql.Proofs.Sql.Lookahead
import HostSql.Proofs.Sql.Openings

/-! A block comment in the place of a line comment. The tokens before it stay the same, unless the one
directly before it goes on with a slash. -/
namespace HostSql.Sql.Lexer

/-- A text in which no quote and no mark's sign comes first. -/
def Unquoted (s : Text) : Prop := s.head? ≠ some '\'' ∧ s.head? ≠ some '"' ∧ s.head? ≠ some '&'

section
variable {d : Dialect} {c e q : Char} {s s' w z sign r : Text} {n : Nat} {kind : TokenKind}
  {string : StringKind} {scan : Text → Option Nat}

theorem OpensComment.head (hs : OpensComment d s) :
    ∃ e z, s = e :: z ∧ (e = '-' ∨ e = '#' ∨ e = '/') := by
  cases hs with
  | dashes z => exact ⟨_, _, rfl, .inl rfl⟩
  | hash z => exact ⟨_, _, rfl, .inr (.inl rfl)⟩
  | slashes z => exact ⟨_, _, rfl, .inr (.inr rfl)⟩

theorem OpensComment.unquoted (hs : OpensComment d s) : Unquoted s := by
  obtain ⟨e, z, rfl, sign⟩ := hs.head
  rcases sign with rfl | rfl | rfl <;> simp [Unquoted]

theorem unquoted_slash (z : Text) : Unquoted ('/' :: z) := by
  simp [Unquoted]

/-- The sign behind a mark lies before a text that starts with no quote. -/
theorem Marks.split (h : Marks d c sign string scan q) (hs : Unquoted s) (whole : w ++ s = sign ++ r) :
    ∃ w', w = sign ++ w' ∧ r = w' ++ s := by
  have front : sign.length ≤ w.length := by
    obtain ⟨single, double, and⟩ := hs
    match w, whole with
    | [], whole =>
      rcases h.quote with ⟨rfl, -⟩ | ⟨rfl, -⟩ | ⟨rfl, -⟩
      · exact absurd (congrArg List.head? whole) single
      · exact absurd (congrArg List.head? whole) double
      · exact absurd (congrArg List.head? whole) and
    | [e], whole =>
      rcases h.quote with ⟨rfl, -⟩ | ⟨rfl, -⟩ | ⟨rfl, -⟩
      · exact Nat.le_refl 1
      · exact Nat.le_refl 1
      · exact absurd (congrArg List.head? (List.cons.inj whole).2) single
    | _ :: _ :: w, _ =>
      rcases h.quote with ⟨rfl, -⟩ | ⟨rfl, -⟩ | ⟨rfl, -⟩ <;> simp
  obtain ⟨w', rfl, rfl⟩ := Text.exists_append_of_length_le whole.symm front
  exact ⟨w', rfl, rfl⟩

theorem marked_none_exchange (h : marked d c (w ++ s) = none) (hs' : Unquoted s') :
    marked d c (w ++ s') = none := by
  cases found : marked d c (w ++ s') with
  | none => rfl
  | some token =>
    obtain ⟨sign, r, string, scan, q, whole, marks⟩ := exists_of_marked found
    obtain ⟨w', rfl, rfl⟩ := marks.split hs' whole
    rw [List.append_assoc, marks.reads] at h
    cases h

/-- A string with a mark is closed before the text that is exchanged. -/
theorem marked_some_exchange (h : marked d c (w ++ s) = some (some (kind, n))) (hs : Unquoted s)
    (hs' : Unquoted s') (inside : n ≤ w.length) : marked d c (w ++ s') = some (some (kind, n)) := by
  obtain ⟨sign, r, string, scan, q, whole, marks⟩ := exists_of_marked h
  obtain ⟨w', rfl, rfl⟩ := marks.split hs whole
  rw [List.append_assoc, marks.reads] at h
  obtain ⟨k, hk, same⟩ := Option.map_eq_some_iff.1 (Option.some.inj h)
  cases same
  have other : s'.head? ≠ some q := by
    rcases marks.quote with ⟨-, rfl⟩ | ⟨-, rfl⟩ | ⟨-, rfl⟩
    · exact hs'.1
    · exact hs'.2.1
    · exact hs'.1
  rw [List.length_append] at inside
  rw [List.append_assoc, marks.reads, (marks.ends _ _ hk).exchange (by omega) other]
  rfl

/-- Directly before the comment no name can start: it would take the sign of the comment. -/
theorem atSign_exchange (hs : OpensComment d s) (h : atSign d (w ++ s) = (kind, n)) (inside : n ≤ w.length)
    (z : Text) : atSign d (w ++ '/' :: z) = (kind, n) := by
  have word (w : Text) : run d.continuesWord (w ++ '/' :: z) = run d.continuesWord (w ++ s) := by
    rw [run_append hs.stops.word, run_append (stops_slash d z).word]
  obtain ⟨e, y, rfl, sign⟩ := hs.head
  have other : e ≠ '@' ∧ e ≠ '>' ∧ e ≠ '?' ∧ e ≠ ' ' ∧ e ≠ '\'' ∧ e ≠ '"' ∧ e ≠ '\x60' := by
    rcases sign with rfl | rfl | rfl <;> decide
  match w with
  | [] =>
    rw [List.nil_append, atSign_cons other.1] at h
    rw [List.nil_append, atSign_cons (by decide), ← h]
    cases named : d.startsWord '@' with
    | false => simp [other]
    | true =>
      simp [named, other] at h
      exact absurd (h.2 ▸ inside) (by simp)
  | [f] =>
    by_cases doubled : f = '@'
    · subst doubled
      rw [List.singleton_append, atSign_doubled] at h
      rw [List.singleton_append, atSign_doubled, ← h]
      cases named : d.startsWord '@' with
      | false => simp
      | true =>
        simp [named, other] at h
        simp only [List.length_singleton] at inside
        omega
    · rw [← h, List.singleton_append, List.singleton_append, atSign_cons doubled, atSign_cons doubled]
      exact congrArg _ (congrArg _ (congrArg _ (congrArg _ (word []))))
  | f :: g :: w =>
    by_cases doubled : f = '@'
    · subst doubled
      rw [← h, List.cons_append, List.cons_append, List.cons_append, List.cons_append, atSign_doubled,
        atSign_doubled, word]
    · rw [← h]
      calc atSign d (f :: (g :: w ++ '/' :: z))
          = atSign d (f :: (g :: w ++ e :: y)) := by
            rw [atSign_cons doubled, atSign_cons doubled, word]

/-- A tag or a parameter ends before the comment. -/
theorem dollar_exchange (hs : OpensComment d s) (h : dollar (w ++ s) = some (kind, n))
    (inside : n ≤ w.length) (z : Text) : dollar (w ++ '/' :: z) = some (kind, n) := by
  by_cases doubled : w.head? = some '$'
  · obtain ⟨w, rfl⟩ := List.head?_eq_some_iff.1 doubled
    obtain ⟨k, hk, same⟩ := Option.map_eq_some_iff.1 h
    cases same
    have closed := (closes_dollarsEnd hk).exchange (Nat.le_of_succ_le_succ inside) ('/' :: z)
    exact congrArg (Option.map fun n => (TokenKind.string .special, n + 1)) closed
  · obtain ⟨name, v, rfl, all, stop⟩ := Text.exists_takeWhile continuesTag w
    cases v with
    | nil =>
      have single : s.head? ≠ some '$' ∧ s.head?.any continuesTag = false := by
        obtain ⟨e, y, rfl, sign⟩ := hs.head
        have stops : e ≠ '$' ∧ continuesTag e = false := by
          rcases sign with rfl | rfl | rfl <;> decide
        exact ⟨fun same => stops.1 (Option.some.inj same), stops.2⟩
      rw [List.append_nil, dollar_parameter all single.2 single.1] at h
      rw [List.append_nil, dollar_parameter all rfl (by simp), h]
    | cons c v =>
      rw [List.append_assoc, List.cons_append] at h ⊢
      by_cases tagged : c = '$'
      · subst tagged
        have filled : name ≠ [] := by
          rintro rfl
          exact doubled rfl
        rw [dollar_tag all filled] at h ⊢
        obtain ⟨k, hk, same⟩ := Option.map_eq_some_iff.1 h
        cases same
        rw [List.length_append, List.length_cons] at inside
        rw [(closes_taggedEnd hk).exchange (by omega) ('/' :: z)]
        rfl
      · have single (r : Text) : (c :: r).head? ≠ some '$' := fun same => tagged (Option.some.inj same)
        rw [dollar_parameter (r := c :: (v ++ s)) all stop (single _)] at h
        rw [dollar_parameter (r := c :: (v ++ '/' :: z)) all stop (single _), h]

/-- No sign of a comment starts a word between quotes. -/
theorem quotedWord?_exchange (hs : OpensComment d s) (c : Char) (w z : Text) :
    quotedWord? d c (w ++ '/' :: z) = quotedWord? d c (w ++ s) := by
  by_cases redshift : d = .redshift
  · subst redshift
    obtain ⟨u, v, rfl, blank, stop⟩ := Text.exists_takeWhile isBlank w
    have same : ((u ++ v ++ '/' :: z).dropWhile isBlank).head?.any (Dialect.redshift.startsWord ·) =
        ((u ++ v ++ s).dropWhile isBlank).head?.any (Dialect.redshift.startsWord ·) := by
      rw [List.append_assoc, List.append_assoc]
      cases v with
      | nil =>
        cases hs with
        | dashes y =>
          rw [List.nil_append, List.nil_append, Text.dropWhile_stop blank rfl, Text.dropWhile_stop blank rfl]
          rfl
        | hash y has => cases has
        | slashes y has => cases has
      | cons c v =>
        rw [Text.dropWhile_stop (t := c :: v ++ '/' :: z) blank stop,
          Text.dropWhile_stop (t := c :: v ++ s) blank stop]
        rfl
    rw [quotedWord?, quotedWord?, same]
  · have other : (d != .redshift) = true := bne_iff_ne.2 redshift
    rw [quotedWord?, quotedWord?, other]
    rfl

theorem plain_hash (d : Dialect) (t : Text) : plain d '#' t =
    if d.startsWord '#' && !(['-', '>', ' '].contains (t.headD ' ')) then
      some (.word, 1 + run d.continuesWord (t.drop 1))
    else some ((operator? d '#' t).getD (.stray, 0)) := rfl

theorem le_openOperator (d : Dialect) (t : Text) (n : Nat) : n - 1 ≤ (openOperator d t n).2 := by
  rw [openOperator]
  split <;> dsimp only <;> omega

/-- A hash sign takes what it is followed by: a dash of the comment, or the first character of a word. -/
theorem plain_hash_exchange (hs : OpensComment d s) (h : plain d '#' (w ++ s) = some (kind, n))
    (code : d.hasHashComments = false) (inside : n ≤ w.length)
    (free : n = w.length → joinsSlash d ('#' :: w) = false) (z : Text) :
    plain d '#' (w ++ '/' :: z) = some (kind, n) := by
  rw [plain_hash] at h ⊢
  cases w with
  | nil =>
    cases hs with
    | dashes y =>
      rw [if_neg (by simp)] at h
      have taken := le_openOperator d ('#' :: '-' :: '-' :: y) 2
      have signs : openOperator d ('#' :: '-' :: '-' :: y) 2 = (kind, n) := Option.some.inj h
      rw [signs] at taken
      exact absurd (Nat.le_trans taken inside) (by decide)
    | hash y has =>
      rw [code] at has
      cases has
    | slashes y has =>
      have hash : d.hasHashComments = true := by
        revert has
        cases d <;> decide
      rw [code] at hash
      cases hash
  | cons e w =>
    rw [List.cons_append] at h ⊢
    by_cases named : (d.startsWord '#' && !(['-', '>', ' '].contains e)) = true
    · have same : run d.continuesWord (w ++ '/' :: z) = run d.continuesWord (w ++ s) := by
        rw [run_append hs.stops.word, run_append (stops_slash d z).word]
      rw [if_pos (by exact named)] at h ⊢
      rw [List.drop_succ_cons, List.drop_zero] at h ⊢
      rwa [same]
    · rw [if_neg (by exact named)] at h ⊢
      rw [← List.cons_append] at h ⊢
      rw [operator?_exchange hs (Option.some.inj h) inside free, h]

theorem plain_exchange (hs : OpensComment d s) (h : plain d c (w ++ s) = some (kind, n))
    (code : c = '#' → d.hasHashComments = false) (inside : n ≤ w.length)
    (free : n = w.length → joinsSlash d (c :: w) = false) (z : Text) :
    plain d c (w ++ '/' :: z) = some (kind, n) := by
  by_cases hash : c = '#'
  · subst hash
    exact plain_hash_exchange hs h (code rfl) inside free z
  unfold plain at h ⊢
  rw [if_neg (by simp [hash]), if_neg (by simp [hash])] at h ⊢
  by_cases at' : c = '@'
  · rw [if_pos (beq_iff_eq.2 at')] at h ⊢
    rw [atSign_exchange hs (Option.some.inj h) inside]
  rw [if_neg (by simp [at'])] at h ⊢
  by_cases question : c = '?'
  · rw [if_pos (beq_iff_eq.2 question)] at h ⊢
    obtain ⟨e, y, rfl, sign⟩ := hs.head
    have numeral : isNumeral e = false := by
      rcases sign with rfl | rfl | rfl <;> decide
    have same : run isNumeral (w ++ '/' :: z) = run isNumeral (w ++ e :: y) := by
      rw [run_append (p := isNumeral) (s := e :: y) numeral, run_append (p := isNumeral) (s := '/' :: z) (by rfl)]
    have one (f : Char) (x : Text) : min 1 (w ++ f :: x).length = 1 := by
      rw [List.length_append, List.length_cons]
      omega
    rw [one, same]
    rwa [one] at h
  rw [if_neg (by simp [question])] at h ⊢
  by_cases letter : d.startsWord c = true
  · rw [if_pos letter] at h ⊢
    have same : run d.continuesWord (w ++ '/' :: z) = run d.continuesWord (w ++ s) := by
      rw [run_append hs.stops.word, run_append (stops_slash d z).word]
    rwa [word, same]
  rw [if_neg letter] at h ⊢
  by_cases sign : c = '$'
  · rw [if_pos (beq_iff_eq.2 sign)] at h ⊢
    exact dollar_exchange hs h inside z
  rw [if_neg (by simp [sign])] at h ⊢
  by_cases blank : isBlank c = true
  · rw [if_pos blank] at h ⊢
    exact h
  rw [if_neg blank] at h ⊢
  rw [operator?_exchange hs (Option.some.inj h) inside free, h]

/-- A closing quote lies before the comment. -/
theorem Ends.exchange_map {scan : Text → Option Nat} {q : Char} {kind' : TokenKind}
    (ends : ∀ {r n}, scan r = some n → Ends scan q r n) (hq : q ≠ '/')
    (h : (scan (w ++ s)).map (kind', ·) = some (kind, n)) (inside : n ≤ w.length) (z : Text) :
    (scan (w ++ '/' :: z)).map (kind', ·) = some (kind, n) := by
  obtain ⟨k, hk, same⟩ := Option.map_eq_some_iff.1 h
  cases same
  have other : ('/' :: z).head? ≠ some q := fun same => hq (Option.some.inj same).symm
  rw [(ends hk).exchange inside other]
  rfl

/-- Two signs that are not there do not come about with a slash that is not the second of them. -/
theorem second_exchange {a b : Char} (other : b ≠ '/')
    (h : ¬(c == a && (w ++ s).head? == some b) = true) (z : Text) :
    ¬(c == a && (w ++ '/' :: z).head? == some b) = true := by
  cases w with
  | nil => simp [Ne.symm other]
  | cons e w => exact h

/-- Nor do two slashes, where no slash is joined with the comment. -/
theorem slashes_exchange
    (h : ¬(c == '/' && (w ++ s).head? == some '/' && d.hasSlashComments) = true)
    (free : w = [] → joinsSlash d (c :: w) = false) (z : Text) :
    ¬(c == '/' && (w ++ '/' :: z).head? == some '/' && d.hasSlashComments) = true := by
  cases w with
  | cons e w => exact h
  | nil =>
    by_cases slash : c = '/'
    · subst slash
      simp [(joinsSlash_of_slash (free rfl)).1]
    · simp [beq_eq_false_iff_ne.2 slash]

/-- A block comment is closed before the one that is exchanged. -/
theorem blockComment_exchange (hs : OpensComment d s) (opens : (w ++ s).head? = some '*')
    (h : (blockCommentEnd 0 ' ' ((w ++ s).drop 1)).map (fun n => (TokenKind.blockComment, n + 1)) =
      some (kind, n)) (inside : n ≤ w.length) (z : Text) :
    (w ++ '/' :: z).head? = some '*' ∧
      (blockCommentEnd 0 ' ' ((w ++ '/' :: z).drop 1)).map
        (fun n => (TokenKind.blockComment, n + 1)) = some (kind, n) := by
  cases w with
  | nil =>
    obtain ⟨e, y, rfl, sign⟩ := hs.head
    rcases sign with rfl | rfl | rfl <;> cases opens
  | cons e w =>
    obtain ⟨k, hk, same⟩ := Option.map_eq_some_iff.1 h
    cases same
    have closed := (closes_blockCommentEnd hk).exchange (Nat.le_of_succ_le_succ inside) ('/' :: z)
    exact ⟨opens, congrArg (Option.map fun n => (TokenKind.blockComment, n + 1)) closed⟩

theorem unmarked_exchange (hs : OpensComment d s) (h : unmarked d c (w ++ s) = some (kind, n))
    (code : ∀ m, kind ≠ .lineComment m) (inside : n ≤ w.length)
    (free : n = w.length → joinsSlash d (c :: w) = false) (z : Text) :
    unmarked d c (w ++ '/' :: z) = some (kind, n) := by
  unfold unmarked at h ⊢
  by_cases single : c = '\''
  · rw [if_pos (beq_iff_eq.2 single)] at h ⊢
    exact Ends.exchange_map ends_stringEnd (by simp [single]) h inside z
  rw [if_neg (by simp [single])] at h ⊢
  by_cases double : (c == '"' && !d.opensQuotedName c) = true
  · rw [if_pos double] at h ⊢
    have quote : c = '"' := beq_iff_eq.1 (Bool.and_eq_true_iff.1 double).1
    exact Ends.exchange_map ends_stringEnd (by simp [quote]) h inside z
  rw [if_neg double] at h ⊢
  rw [quotedWord?_exchange hs]
  by_cases quoted : quotedWord? d c (w ++ s) = true
  · rw [if_pos quoted] at h ⊢
    refine Ends.exchange_map ends_quotedEnd ?_ h inside z
    rcases mem_of_opensQuotedName (Bool.and_eq_true_iff.1 quoted).1 with rfl | rfl | rfl <;> decide
  rw [if_neg quoted] at h ⊢
  by_cases digit : (c.isDigit || c == '.') = true
  · rw [if_pos digit] at h ⊢
    rwa [number_append (stops_slash d z), ← number_append hs.stops]
  rw [if_neg digit] at h ⊢
  -- What is left are comments and what is plain. A line comment is excluded, so its sign is not there.
  by_cases dashes : (c == '-' && (w ++ s).head? == some '-') = true
  · rw [if_pos dashes] at h
    cases h
    exact absurd rfl (code 2)
  rw [if_neg dashes] at h
  rw [if_neg (second_exchange (by decide) dashes z)]
  by_cases opens : (c == '/' && (w ++ s).head? == some '*') = true
  · rw [if_pos opens] at h
    obtain ⟨slash, star⟩ := Bool.and_eq_true_iff.1 opens
    obtain ⟨star', closed⟩ := blockComment_exchange hs (beq_iff_eq.1 star) h inside z
    rw [if_pos (Bool.and_eq_true_iff.2 ⟨slash, beq_iff_eq.2 star'⟩), closed]
  rw [if_neg opens] at h
  rw [if_neg (second_exchange (by decide) opens z)]
  by_cases slashes : (c == '/' && (w ++ s).head? == some '/' && d.hasSlashComments) = true
  · rw [if_pos slashes] at h
    cases h
    exact absurd rfl (code 2)
  rw [if_neg slashes] at h
  rw [if_neg (slashes_exchange slashes (fun none => free (by subst none; exact Nat.le_zero.1 inside)) z)]
  by_cases hash : (c == '#' && d.hasHashComments) = true
  · rw [if_pos hash] at h
    cases h
    exact absurd rfl (code 1)
  rw [if_neg hash] at h ⊢
  refine plain_exchange hs h (fun sign => ?_) inside free z
  simpa [sign] using hash

/-- A token stays the same when a block comment takes the place of a line comment behind it, or further
on. -/
theorem first_exchange (hs : OpensComment d s) (h : first d c (w ++ s) = some (kind, n))
    (code : ∀ m, kind ≠ .lineComment m) (inside : n ≤ w.length)
    (free : n = w.length → joinsSlash d (c :: w) = false) (z : Text) :
    first d c (w ++ '/' :: z) = some (kind, n) := by
  unfold first at h ⊢
  by_cases blank : (c == ' ' || c == '\t' || c == '\n') = true
  · rw [if_pos blank] at h ⊢
    exact h
  rw [if_neg blank] at h ⊢
  by_cases ret : (c == '\r') = true
  · rw [if_pos ret] at h ⊢
    cases w with
    | nil =>
      obtain ⟨e, y, rfl, sign⟩ := hs.head
      rw [← h]
      rcases sign with rfl | rfl | rfl <;> rfl
    | cons e w => exact h
  rw [if_neg ret] at h ⊢
  cases found : marked d c (w ++ s) with
  | none =>
    rw [found] at h
    rw [marked_none_exchange found (unquoted_slash z)]
    exact unmarked_exchange hs h code inside free z
  | some token =>
    rw [found] at h
    have token : token = some (kind, n) := h
    rw [token] at found
    rw [marked_some_exchange found hs.unquoted (unquoted_slash z) inside]

end
end HostSql.Sql.Lexer
