import HostSql.Proofs.Host.Tokens

/-! The arguments of calls among the tokens of a text: the literals that stand alone between the
parentheses of a call, judged by the tokens around them. -/
namespace HostSql.HostToken
open Locator (isGap)

/-- A character of a class, standing alone. -/
def isChar (p : Char → Bool) : HostToken → Bool
  | char c => p c
  | _ => false

/-- The tokens before a place, the nearest first, are the name of a call, blanks, a parenthesis and a
gap. -/
def opensCall (name : Text) (before : List HostToken) : Bool :=
  match before.dropWhile (isChar isGap) with
  | .char '(' :: before => (before.dropWhile (isChar isIndent)).head? == some (.name name)
  | _ => false

/-- The tokens behind a place are a gap, one comma at most, and the parenthesis that closes a call. -/
def closesCall (after : List HostToken) : Bool :=
  match after.dropWhile (isChar isGap) with
  | .char ',' :: after => (after.dropWhile (isChar isGap)).head? == some (.char ')')
  | .char ')' :: _ => true
  | _ => false

/-- The token is the only argument of a call: a literal that is not of bytes. -/
def argument? (name : Text) (before : List HostToken) (after : List HostToken) :
    HostToken → Option Literal
  | .literal l =>
    if !Literal.marksMeanBytes l.marks && opensCall name before && closesCall after then some l
    else none
  | _ => none

/-- The arguments among tokens that begin at byte `n`. The tokens before them, the nearest first, are
`before`. -/
def arguments (name : Text) (n : Nat) (before : List HostToken) : List HostToken → List Fragment
  | [] => []
  | x :: after =>
    ((argument? name before after x).map (Fragment.ofLiteral n)).toList ++
      arguments name (n + x.text.size) (x :: before) after

section Before
variable {name u : Text} {before ts : List HostToken} {p : Char → Bool} {n : Nat}

theorem exists_chars (h : ∀ x ∈ ts, isChar p x = true) :
    ∃ u : Text, ts = u.map char ∧ ∀ c ∈ u, p c = true := by
  induction ts with
  | nil => exact ⟨[], rfl, by simp⟩
  | cons x ts ih =>
    obtain ⟨first, more⟩ := List.forall_mem_cons.1 h
    obtain ⟨u, rfl, hu⟩ := ih more
    cases x with
    | char c => exact ⟨c :: u, rfl, List.forall_mem_cons.2 ⟨first, hu⟩⟩
    | _ => cases first

theorem dropWhile_chars (h : ∀ c ∈ u, p c = true) (ts : List HostToken) :
    (u.map char ++ ts).dropWhile (isChar p) = ts.dropWhile (isChar p) := by
  apply List.dropWhile_append_of_pos
  intro x hx
  obtain ⟨c, hc, rfl⟩ := List.mem_map.1 hx
  exact h c hc

/-- The gap before the argument of a call, as it is passed character by character. -/
theorem opensCall_iff : opensCall name before = true ↔
    ∃ blanks inner rest, before = ((blanks ++ '(' :: inner).map char).reverse ++ .name name :: rest ∧
      (∀ c ∈ blanks, isIndent c = true) ∧ ∀ c ∈ inner, isGap c = true := by
  constructor
  · intro h
    unfold opensCall at h
    split at h
    · next outer ho =>
      have gapChars : ∀ x ∈ before.takeWhile (isChar isGap), isChar isGap x = true :=
        List.all_eq_true.1 List.all_takeWhile
      have blankChars : ∀ x ∈ outer.takeWhile (isChar isIndent), isChar isIndent x = true :=
        List.all_eq_true.1 List.all_takeWhile
      obtain ⟨u, hu, gap⟩ := exists_chars gapChars
      obtain ⟨v, hv, indent⟩ := exists_chars blankChars
      obtain ⟨rest, hr⟩ := List.head?_eq_some_iff.1 (beq_iff_eq.1 h)
      have whole : before = u.map char ++ .char '(' :: (v.map char ++ .name name :: rest) := by
        rw [← hv, ← hr, List.takeWhile_append_dropWhile, ← hu, ← ho, List.takeWhile_append_dropWhile]
      refine ⟨v.reverse, u.reverse, rest, ?_, ?_, ?_⟩
      · rw [whole]
        simp
      · exact fun c hc => indent c (List.mem_reverse.1 hc)
      · exact fun c hc => gap c (List.mem_reverse.1 hc)
    · cases h
  · rintro ⟨blanks, inner, rest, rfl, hb, hg⟩
    have shape : ((blanks ++ '(' :: inner).map char).reverse ++ .name name :: rest =
        inner.reverse.map char ++ (.char '(' :: (blanks.reverse.map char ++ .name name :: rest)) := by
      simp
    have gap : ∀ c ∈ inner.reverse, isGap c = true := fun c hc => hg c (List.mem_reverse.1 hc)
    have indent : ∀ c ∈ blanks.reverse, isIndent c = true := fun c hc => hb c (List.mem_reverse.1 hc)
    have paren : isGap '(' = false := rfl
    have outer : (((blanks ++ '(' :: inner).map char).reverse ++ .name name :: rest).dropWhile
        (isChar isGap) = .char '(' :: (blanks.reverse.map char ++ .name name :: rest) := by
      rw [shape, dropWhile_chars gap, List.dropWhile_cons_of_neg (by simp [isChar, paren])]
    have called : (blanks.reverse.map char ++ .name name :: rest).dropWhile (isChar isIndent) =
        .name name :: rest := by
      rw [dropWhile_chars indent, List.dropWhile_cons_of_neg (by simp [isChar])]
    simp only [opensCall, outer, called, List.head?_cons, beq_self_eq_true]

/-- Characters that stand alone are no arguments. -/
theorem arguments_chars (u : Text) :
    arguments name n before (u.map char ++ ts) =
      arguments name (n + u.size) ((u.map char).reverse ++ before) ts := by
  induction u generalizing n before with
  | nil => rfl
  | cons c u ih =>
    rw [List.map_cons, List.cons_append, arguments, ih]
    simp [argument?, text, Nat.add_assoc]

end Before

section After
variable {marker t rest : Text} {prev : Option Char} {c d : Char} {ts : List HostToken}

/-- The characters that stand behind the argument of a call. -/
structure Closes (d : Char) : Prop where
  gap : isGap d = false
  blank : isBlank d = false
  percent : d ≠ '%'
  hash : d ≠ '#'
  name : isNameChar d = false
  quote : isQuote d = false

theorem closes_comma : Closes ',' := by constructor <;> decide

theorem closes_paren : Closes ')' := by constructor <;> decide

theorem isBlank_of_isGap (hc : isGap c = true) : isBlank c = true := by
  simp only [isGap, Bool.or_eq_true, beq_iff_eq] at hc
  rcases hc with ((rfl | rfl) | rfl) | rfl <;> decide

theorem dropWhile_isBlank (t : Text) :
    (t.dropWhile isGap).dropWhile isBlank = t.dropWhile isBlank := by
  obtain ⟨u, w, rfl, gap, stop⟩ := Text.exists_takeWhile isGap t
  rw [Text.dropWhile_stop gap stop,
    List.dropWhile_append_of_pos fun c hc => isBlank_of_isGap (gap c hc)]

/-- A gap before a character that closes a call is passed character by character. -/
theorem tokens_gap (percent : marker.head? = some '%') (hd : Closes d)
    (h : t.dropWhile isGap = d :: rest) (prev : Option Char) :
    (tokens marker prev t).dropWhile (isChar isGap) = .char d :: tokens marker (some d) rest := by
  induction t generalizing prev with
  | nil => cases h
  | cons c t ih =>
    have plain : opensBlock marker prev (c :: t) = false := by
      cases opens : opensBlock marker prev (c :: t) with
      | false => rfl
      | true =>
        have first := head?_of_opensBlock percent opens
        rw [← dropWhile_isBlank, h, List.dropWhile_cons_of_neg (by simp [hd.blank])] at first
        exact absurd (Option.some.inj first) hd.percent
    cases gap : isGap c with
    | true =>
      obtain ⟨hash, name, quote⟩ := Locator.plain_of_opening (.inl gap)
      rw [tokens_char plain hash name quote, List.dropWhile_cons_of_pos (by exact gap)]
      rw [List.dropWhile_cons_of_pos gap] at h
      exact ih h (some c)
    | false =>
      rw [List.dropWhile_cons_of_neg (by simp [gap])] at h
      obtain ⟨rfl, rfl⟩ := List.cons.inj h
      rw [tokens_char plain hd.hash hd.name hd.quote,
        List.dropWhile_cons_of_neg (by simp [isChar, gap])]

/-- Where the gap among the tokens ends at a character, it ends there in the text. -/
theorem gap_of_tokens (h : (tokens marker prev t).dropWhile (isChar isGap) = .char d :: ts) :
    ∃ rest, t.dropWhile isGap = d :: rest := by
  induction t generalizing prev with
  | nil =>
    rw [tokens_nil] at h
    cases h
  | cons c t ih =>
    obtain ⟨rest, whole, -⟩ := text_first marker prev c t
    rw [tokens_of_first rfl whole] at h
    cases hx : first marker prev c t with
    | char e =>
      rw [hx] at h whole
      obtain ⟨rfl, rfl⟩ := List.cons.inj whole
      cases gap : isGap c with
      | true =>
        rw [List.dropWhile_cons_of_pos gap]
        rw [List.dropWhile_cons_of_pos (by exact gap)] at h
        exact ih h
      | false =>
        rw [List.dropWhile_cons_of_neg (by simp [isChar, gap])] at h
        cases h
        exact ⟨t, List.dropWhile_cons_of_neg (by simp [gap])⟩
    | _ =>
      rw [hx, List.dropWhile_cons_of_neg (by simp [isChar])] at h
      cases h

theorem closesCall_tokens (percent : marker.head? = some '%') (prev : Option Char) (t : Text) :
    closesCall (tokens marker prev t) = Locator.closesCall t := by
  cases closes : Locator.closesCall t with
  | true =>
    unfold Locator.closesCall at closes
    split at closes
    · next u hu =>
      obtain ⟨z, hz⟩ := List.head?_eq_some_iff.1 (beq_iff_eq.1 closes)
      simp [closesCall, tokens_gap percent closes_comma hu prev, tokens_gap percent closes_paren hz]
    · next u hu => simp [closesCall, tokens_gap percent closes_paren hu prev]
    · cases closes
  | false =>
    cases closes' : closesCall (tokens marker prev t) with
    | false => rfl
    | true =>
      unfold closesCall at closes'
      split at closes'
      · next ts ht =>
        obtain ⟨u, hu⟩ := gap_of_tokens ht
        rw [tokens_gap percent closes_comma hu] at ht
        obtain ⟨-, rfl⟩ := List.cons.inj ht
        obtain ⟨ts, hts⟩ := List.head?_eq_some_iff.1 (beq_iff_eq.1 closes')
        obtain ⟨z, hz⟩ := gap_of_tokens hts
        simp [Locator.closesCall, hu, hz] at closes
      · next ts ht =>
        obtain ⟨u, hu⟩ := gap_of_tokens ht
        simp [Locator.closesCall, hu] at closes
      · cases closes'

end After
end HostSql.HostToken
