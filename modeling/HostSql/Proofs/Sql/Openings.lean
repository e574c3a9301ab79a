import HostSql.Proofs.Sql.Scans

/-! What opens a token. Marks before quotes, the at sign and the dollar sign are told apart by the few
characters behind them. -/
namespace HostSql.Sql.Lexer

/-- A mark opens a string with the sign behind it, which ends with a quote. -/
structure Marks (d : Dialect) (c : Char) (sign : Text) (kind : StringKind) (scan : Text → Option Nat)
    (q : Char) : Prop where
  quote : sign = ['\''] ∧ q = '\'' ∨ sign = ['"'] ∧ q = '"' ∨ sign = ['&', '\''] ∧ q = '\''
  reads : ∀ r : Text, marked d c (sign ++ r) =
    some ((scan r).map fun n => (.string kind, n + sign.length))
  ends : ∀ r n, scan r = some n → Ends scan q r n

section
variable {d : Dialect} {c e : Char} {t : Text}

/-- The sign is a quote, and the string ends with the same one. -/
theorem marks_quote {q : Char} (quote : q = '\'' ∨ q = '"') (kind : StringKind)
    (scan : Text → Option Nat)
    (reads : ∀ r : Text, marked d c (q :: r) = some ((scan r).map fun n => (.string kind, n + 1)))
    (ends : ∀ r n, scan r = some n → Ends scan q r n) : Marks d c [q] kind scan q := by
  refine ⟨?_, reads, ends⟩
  rcases quote with rfl | rfl
  · exact .inl ⟨rfl, rfl⟩
  · exact .inr (.inl ⟨rfl, rfl⟩)

theorem marks_string {q : Char} (quote : q = '\'' ∨ q = '"') (triple : Bool)
    (reads : ∀ r : Text, marked d c (q :: r) =
      some ((stringEnd triple false q r).map fun n => (.string .special, n + 1))) :
    Marks d c [q] .special (stringEnd triple false q) q :=
  marks_quote quote .special _ reads fun _ _ => ends_stringEnd

/-- What is read behind a mark is read by a scan for a quote, whatever follows the sign. -/
theorem exists_of_marked {token : Option (TokenKind × Nat)} (h : marked d c t = some token) :
    ∃ sign r kind scan q, t = sign ++ r ∧ Marks d c sign kind scan q := by
  unfold marked at h
  dsimp only at h
  split at h
  · next r mark =>
    split at h
    · next has =>
      exact ⟨_, r, _, _, _, rfl, marks_string (.inl rfl) d.hasTripleQuotes
        fun r => by simp only [marked, mark, has, if_true]⟩
    · cases h
  · next r mark =>
    split at h
    · next has =>
      exact ⟨_, r, _, _, _, rfl, marks_string (.inr rfl) d.hasTripleQuotes
        fun r => by simp only [marked, mark, has, if_true]⟩
    · cases h
  · next r mark =>
    split at h
    · next has =>
      exact ⟨_, r, _, _, _, rfl, marks_string (.inl rfl) true
        fun r => by simp only [marked, mark, has, if_true]⟩
    · cases h
  · next r mark =>
    split at h
    · next has =>
      exact ⟨_, r, _, _, _, rfl, marks_string (.inr rfl) true
        fun r => by simp only [marked, mark, has, if_true]⟩
    · cases h
  · next r mark =>
    exact ⟨_, r, _, _, _, rfl, marks_quote (.inl rfl) .special (quotedEnd '\'' true)
      (fun r => by simp only [marked, mark]) fun _ _ => ends_quotedEnd⟩
  · next r mark =>
    exact ⟨_, r, _, _, _, rfl, marks_quote (.inl rfl) .special (quotedEnd '\'' true)
      (fun r => by simp only [marked, mark]) fun _ _ => ends_quotedEnd⟩
  · next r mark =>
    exact ⟨_, r, _, _, _, rfl, marks_quote (.inl rfl) .escaped (escapedEnd 0)
      (fun r => by simp only [marked, mark]) fun _ _ => ends_escapedEnd⟩
  · next r mark =>
    split at h
    · next has =>
      refine ⟨['&', '\''], r, .unicode, unicodeEnd 0, '\'', rfl, .inr (.inr ⟨rfl, rfl⟩), fun r => ?_,
        fun _ _ => ends_unicodeEnd⟩
      have two : (['&', '\''] : Text) ++ r = '&' :: '\'' :: r := rfl
      simp only [two, marked, mark, has, if_true]
      rfl
    · cases h
  · cases h

theorem mem_of_opensQuotedName (h : d.opensQuotedName c = true) : c = '[' ∨ c = '"' ∨ c = '\x60' := by
  cases d <;> simp only [Dialect.opensQuotedName, Bool.or_eq_true, beq_iff_eq] at h <;> grind

theorem atSign_cons (h : e ≠ '@') (d : Dialect) (t : Text) : atSign d (e :: t) =
    if e = '>' ∨ e = '?' then (.symbol, 1)
    else if e = ' ' ∨ e = '\'' ∨ e = '"' ∨ e = '\x60' ∨ d.startsWord '@' = false then (.symbol, 0)
    else (.word, 1 + run d.continuesWord t) := by
  unfold atSign
  cases d.startsWord '@' <;> split <;> simp_all

theorem atSign_doubled (d : Dialect) (e : Char) (t : Text) : atSign d ('@' :: e :: t) =
    if e = ' ' ∨ d.startsWord '@' = false then (.symbol, 1)
    else (.word, 2 + run d.continuesWord t) := by
  unfold atSign
  by_cases space : e = ' '
  · subst space
    rfl
  · cases named : d.startsWord '@' <;> simp [space]

def continuesTag (c : Char) : Bool := isLetter c || isNumeral c || c == '_'

/-- What follows the name behind a dollar sign: the sign that ends a tag, or not. -/
def behindName (name r : Text) : Option (TokenKind × Nat) :=
  match r with
  | '$' :: body => (taggedEnd name 0 body).map fun n => (.string .special, name.length + 1 + n)
  | _ => some (.placeholder, name.length)

theorem dollar_name {name r : Text} (inside : ∀ c ∈ name, continuesTag c = true)
    (stop : r.head?.any continuesTag = false) (single : (name ++ r).head? ≠ some '$') :
    dollar (name ++ r) = behindName name r := by
  have taken : (name ++ r).takeWhile (fun c => isLetter c || isNumeral c || c == '_') = name :=
    Text.takeWhile_stop inside stop
  unfold dollar
  split
  · next h => simp [h] at single
  · dsimp only
    rw [taken, List.drop_left]
    rfl

/-- Behind a dollar sign stands a tag between it and another one. -/
theorem dollar_tag {name : Text} (inside : ∀ c ∈ name, continuesTag c = true) (filled : name ≠ [])
    (body : Text) : dollar (name ++ '$' :: body) =
      (taggedEnd name 0 body).map fun n => (.string .special, name.length + 1 + n) := by
  have stop : continuesTag '$' = false := by decide
  refine dollar_name (r := '$' :: body) inside stop ?_
  obtain ⟨c, name, rfl⟩ := List.exists_cons_of_ne_nil filled
  intro same
  cases Option.some.inj same
  exact absurd (inside _ List.mem_cons_self) (by decide)

/-- Or the name of a parameter stands there. -/
theorem dollar_parameter {name r : Text} (inside : ∀ c ∈ name, continuesTag c = true)
    (stop : r.head?.any continuesTag = false) (single : r.head? ≠ some '$') :
    dollar (name ++ r) = some (.placeholder, name.length) := by
  rw [dollar_name inside stop, behindName]
  · rintro body rfl
    exact single rfl
  · cases name with
    | nil => exact single
    | cons c name =>
      intro same
      cases Option.some.inj same
      exact absurd (inside _ List.mem_cons_self) (by decide)

end
end HostSql.Sql.Lexer
