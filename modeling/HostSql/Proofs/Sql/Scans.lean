import HostSql.Proofs.Text.Search
import HostSql.Sql.Lexer

/-! How far the scans look. A scan for a closing sign takes a text that ends with that sign, and looks one
character beyond it at most, to see whether the sign is doubled. A run of characters stops at the
first character of another class. -/
namespace HostSql.Sql.Lexer

/-- What a scan takes of a text ends with `q`. It takes as much whatever follows, as long as no `q`
follows that did not before. -/
def Ends (scan : Text → Option Nat) (q : Char) (t : Text) (n : Nat) : Prop :=
  ∃ u r, t = u ++ r ∧ u.length = n ∧ u.getLast? = some q ∧
    ∀ r' : Text, (r'.head? = some q → r.head? = some q) → scan (u ++ r') = some n

section
variable {scan scan' : Text → Option Nat} {q c e : Char} {t w s s' : Text} {n m : Nat}

theorem Ends.cons (h : Ends scan q t n)
    (step : ∀ x : Text, x ≠ [] → x.head? = t.head? → scan' (c :: x) = (scan x).map (· + 1)) :
    Ends scan' q (c :: t) (n + 1) := by
  obtain ⟨u, r, rfl, rfl, last, takes⟩ := h
  cases u with
  | nil => cases last
  | cons e u =>
    refine ⟨c :: e :: u, r, rfl, rfl, ?_, fun r' follows => ?_⟩
    · rw [List.getLast?_cons_cons, last]
    · rw [List.cons_append, step (e :: u ++ r') (List.cons_ne_nil _ _) rfl, takes r' follows]
      rfl

theorem Ends.cons_cons (h : Ends scan q t n)
    (step : ∀ x : Text, scan' (c :: e :: x) = (scan x).map (· + 2)) :
    Ends scan' q (c :: e :: t) (n + 2) := by
  obtain ⟨u, r, rfl, rfl, last, takes⟩ := h
  refine ⟨c :: e :: u, r, rfl, rfl, ?_, fun r' follows => ?_⟩
  · rw [List.getLast?_cons_cons, List.getLast?_cons, last]
    rfl
  · rw [List.cons_append, List.cons_append, step, takes r' follows]
    rfl

theorem Ends.one (takes : ∀ r' : Text, (r'.head? = some q → t.head? = some q) → scan (q :: r') = some 1) :
    Ends scan q (q :: t) 1 :=
  ⟨[q], t, rfl, rfl, rfl, takes⟩

/-- Behind `n` characters or more the text may be exchanged. -/
theorem Ends.exchange (h : Ends scan q (w ++ s) n) (inside : n ≤ w.length) (hs : s'.head? ≠ some q) :
    scan (w ++ s') = some n := by
  obtain ⟨u, r, whole, rfl, -, takes⟩ := h
  obtain ⟨w', rfl, rfl⟩ := Text.exists_append_of_length_le whole.symm inside
  rw [List.append_assoc]
  refine takes _ fun first => ?_
  cases w' with
  | nil => exact absurd first hs
  | cons c w' => exact first

theorem Ends.last (h : Ends scan q t n) : (t.take n).getLast? = some q ∧ n ≤ t.length := by
  obtain ⟨u, r, rfl, rfl, last, -⟩ := h
  rw [List.take_left, List.length_append]
  exact ⟨last, by omega⟩

end

section Quotes
variable {quote : Char} {backslash triple : Bool} {t : Text} {n : Nat}

theorem quotedEnd_quote {r : Text} (h : r.head? ≠ some quote) (backslash : Bool) :
    quotedEnd quote backslash (quote :: r) = some 1 := by
  cases r with
  | nil => simp [quotedEnd]
  | cons d r =>
    have other : d ≠ quote := fun same => h (congrArg some same)
    simp [quotedEnd, other]

theorem ends_quotedEnd (h : quotedEnd quote backslash t = some n) :
    Ends (quotedEnd quote backslash) quote t n := by
  fun_induction quotedEnd quote backslash t generalizing n with
  | case1 => cases h
  | case2 =>
    cases h
    exact .one fun r' follows => quotedEnd_quote (fun first => by cases follows first) backslash
  | case3 => cases h
  | case4 t ih =>
    obtain ⟨k, hk, rfl⟩ := Option.map_eq_some_iff.1 h
    exact (ih hk).cons_cons fun x => by rw [quotedEnd, if_pos rfl, if_pos rfl]
  | case5 d t other =>
    cases h
    refine .one fun r' follows => quotedEnd_quote (fun first => other ?_) backslash
    exact Option.some.inj (follows first)
  | case6 c d t other escaped ih =>
    obtain ⟨k, hk, rfl⟩ := Option.map_eq_some_iff.1 h
    exact (ih hk).cons_cons fun x => by rw [quotedEnd, if_neg other, if_pos escaped]
  | case7 c d t other plain ih =>
    obtain ⟨k, hk, rfl⟩ := Option.map_eq_some_iff.1 h
    refine (ih hk).cons fun x filled _ => ?_
    obtain ⟨e, x, rfl⟩ := List.exists_cons_of_ne_nil filled
    rw [quotedEnd, if_neg other, if_neg plain]

theorem ends_tripleQuotedEnd {seen : Nat} (h : tripleQuotedEnd quote backslash seen t = some n) :
    Ends (tripleQuotedEnd quote backslash seen) quote t n := by
  have closed (r : Text) : tripleQuotedEnd quote backslash 2 (quote :: r) = some 1 := by
    cases r <;> simp [tripleQuotedEnd]
  fun_induction tripleQuotedEnd quote backslash seen t generalizing n with
  | case1 => cases h
  | case2 seen c third =>
    cases h
    simp only [Bool.and_eq_true, decide_eq_true_eq, beq_iff_eq] at third
    obtain ⟨rfl, rfl⟩ := third
    exact .one fun r' _ => closed r'
  | case3 => cases h
  | case4 d t =>
    cases h
    exact .one fun r' _ => closed r'
  | case5 seen d t more ih =>
    obtain ⟨k, hk, rfl⟩ := Option.map_eq_some_iff.1 h
    refine (ih hk).cons fun x filled _ => ?_
    obtain ⟨e, x, rfl⟩ := List.exists_cons_of_ne_nil filled
    rw [tripleQuotedEnd, if_pos rfl, if_neg more]
  | case6 seen c d t other escaped ih =>
    obtain ⟨k, hk, rfl⟩ := Option.map_eq_some_iff.1 h
    exact (ih hk).cons_cons fun x => by rw [tripleQuotedEnd, if_neg other, if_pos escaped]
  | case7 seen c d t other plain ih =>
    obtain ⟨k, hk, rfl⟩ := Option.map_eq_some_iff.1 h
    refine (ih hk).cons fun x filled _ => ?_
    obtain ⟨e, x, rfl⟩ := List.exists_cons_of_ne_nil filled
    rw [tripleQuotedEnd, if_neg other, if_neg plain]

theorem stringEnd_plain (quote : Char) (backslash : Bool) :
    stringEnd false backslash quote = quotedEnd quote backslash := by
  funext t
  simp [stringEnd]

theorem stringEnd_triple (quote : Char) (backslash : Bool) (t : Text) :
    stringEnd true backslash quote (quote :: quote :: t) =
      (tripleQuotedEnd quote backslash 0 t).map (· + 2) := by
  simp [stringEnd]

theorem stringEnd_empty (h : t.head? ≠ some quote) (backslash : Bool) :
    stringEnd true backslash quote (quote :: t) = some 1 := by
  cases t with
  | nil => simp [stringEnd]
  | cons d t =>
    have other : d ≠ quote := fun same => h (congrArg some same)
    simp [stringEnd, other]

theorem stringEnd_other (h : t.head? ≠ some quote) (backslash : Bool) :
    stringEnd true backslash quote t = quotedEnd quote backslash t := by
  cases t with
  | nil => simp [stringEnd]
  | cons d t =>
    have other : d ≠ quote := fun same => h (congrArg some same)
    simp [stringEnd, other]

theorem ends_stringEnd (h : stringEnd triple backslash quote t = some n) :
    Ends (stringEnd triple backslash quote) quote t n := by
  cases triple with
  | false =>
    rw [stringEnd_plain] at h ⊢
    exact ends_quotedEnd h
  | true =>
    by_cases first : t.head? = some quote
    · obtain ⟨x, rfl⟩ := List.head?_eq_some_iff.1 first
      by_cases second : x.head? = some quote
      · obtain ⟨y, rfl⟩ := List.head?_eq_some_iff.1 second
        rw [stringEnd_triple] at h
        obtain ⟨k, hk, rfl⟩ := Option.map_eq_some_iff.1 h
        exact (ends_tripleQuotedEnd hk).cons_cons (stringEnd_triple quote backslash)
      · rw [stringEnd_empty second] at h
        cases h
        exact .one fun r' follows => stringEnd_empty (fun third => second (follows third)) backslash
    · rw [stringEnd_other first] at h
      obtain ⟨u, r, rfl, rfl, last, takes⟩ := ends_quotedEnd h
      refine ⟨u, r, rfl, rfl, last, fun r' follows => ?_⟩
      rw [stringEnd_other _, takes r' follows]
      cases u with
      | nil => cases last
      | cons c u => exact first

end Quotes

section Escapes
variable {t x y : Text} {n pending : Nat} {p : Char → Bool} {c : Char}

/-- A run that is cut at some width stops at a character of another class in either text. -/
theorem takeWhile_take (hc : c ∈ x) (stop : p c = false) (width : Nat) (y y' : Text) :
    ((x ++ y).take width).takeWhile p = ((x ++ y').take width).takeWhile p := by
  induction x generalizing width with
  | nil => cases hc
  | cons d x ih =>
    cases width with
    | zero => rfl
    | succ width =>
      rw [List.cons_append, List.cons_append, List.take_succ_cons, List.take_succ_cons]
      cases hd : p d with
      | false => rw [List.takeWhile_cons_of_neg (by simp [hd]), List.takeWhile_cons_of_neg (by simp [hd])]
      | true =>
        have later : c ∈ x := by
          rcases List.mem_cons.1 hc with rfl | later
          · rw [stop] at hd
            cases hd
          · exact later
        rw [List.takeWhile_cons_of_pos hd, List.takeWhile_cons_of_pos hd, ih later]

/-- An escape with a code point in so many hexadecimal digits. -/
def fixedEnd (width : Nat) (t : Text) : Option Nat :=
  let digits := t.take width
  let digits := if digits.head? == some '+' then digits.drop 1 else digits
  if (t.take width).length = width && !digits.isEmpty && digits.all isHexDigit &&
      isCodePoint (value 16 digits) && value 16 digits != 0 then some (width + 1) else none

theorem escapeEnd_cons (c : Char) (t : Text) : escapeEnd (c :: t) =
    if c = 'u' then fixedEnd 4 t
    else if c = 'U' then fixedEnd 8 t
    else if c = 'x' then
      let digits := (t.take 2).takeWhile isHexDigit
      if digits.isEmpty || isByteCode (value 16 digits) then some (digits.length + 1) else none
    else if isOctalDigit c then
      let digits := (t.take 2).takeWhile isOctalDigit
      if isByteCode (value 8 (c :: digits)) then some (digits.length + 1) else none
    else if c = '\x00' then none
    else some 1 := rfl

/-- A quote is no digit, so the digits lie before it or there are too few of them. -/
theorem fixedEnd_append (hx : '\'' ∈ x) (width : Nat) (y y' : Text) :
    fixedEnd width (x ++ y) = fixedEnd width (x ++ y') := by
  by_cases inside : width ≤ x.length
  · unfold fixedEnd
    rw [List.take_append_of_le_length inside, List.take_append_of_le_length inside]
  · have none (y : Text) : fixedEnd width (x ++ y) = none := by
      have quote : '\'' ∈ (x ++ y).take width := by
        rw [List.take_append]
        exact List.mem_append_left _ (by rwa [List.take_of_length_le (by omega)])
      unfold fixedEnd
      generalize (x ++ y).take width = digits at quote
      dsimp only
      rw [if_neg]
      have kept : '\'' ∈ if digits.head? == some '+' then digits.drop 1 else digits := by
        split
        · next plus =>
          obtain ⟨z, rfl⟩ := List.head?_eq_some_iff.1 (beq_iff_eq.1 plus)
          exact (List.mem_cons.1 quote).resolve_left (by decide)
        · exact quote
      simp only [Bool.and_eq_true, List.all_eq_true]
      intro all
      exact absurd (all.1.1.2 _ kept) (by decide)
    rw [none, none]

/-- What an escape takes does not depend on what follows the quote that closes the string. -/
theorem escapeEnd_append (hx : '\'' ∈ x) (y y' : Text) : escapeEnd (x ++ y) = escapeEnd (x ++ y') := by
  cases x with
  | nil => cases hx
  | cons c x =>
    rw [List.cons_append, List.cons_append]
    rcases List.mem_cons.1 hx with rfl | later
    · rfl
    · rw [escapeEnd_cons, escapeEnd_cons, fixedEnd_append later 4 y y', fixedEnd_append later 8 y y',
        takeWhile_take later (p := isHexDigit) (by decide) 2 y y',
        takeWhile_take later (p := isOctalDigit) (by decide) 2 y y']

theorem escapedEnd_quote {r : Text} (h : r.head? ≠ some '\'') : escapedEnd 0 ('\'' :: r) = some 1 := by
  cases r with
  | nil => simp [escapedEnd]
  | cons d r =>
    have other : d ≠ '\'' := fun same => h (congrArg some same)
    rw [escapedEnd]
    simpa using other

theorem ends_escapedEnd (h : escapedEnd pending t = some n) : Ends (escapedEnd pending) '\'' t n := by
  fun_induction escapedEnd pending t generalizing n with
  | case1 => cases h
  | case2 pending c t ih =>
    obtain ⟨k, hk, rfl⟩ := Option.map_eq_some_iff.1 h
    exact (ih hk).cons fun x _ _ => by rw [escapedEnd]
  | case3 t ih =>
    obtain ⟨k, hk, rfl⟩ := Option.map_eq_some_iff.1 h
    exact (ih hk).cons_cons fun x => by rw [escapedEnd]
  | case4 t other =>
    cases h
    refine .one fun r' follows => escapedEnd_quote fun first => ?_
    obtain ⟨y, rfl⟩ := List.head?_eq_some_iff.1 (follows first)
    exact other y rfl
  | case5 t ih =>
    obtain ⟨width, hw, hk⟩ := Option.bind_eq_some_iff.1 h
    obtain ⟨k, taken, rfl⟩ := Option.map_eq_some_iff.1 hk
    obtain ⟨u, r, rfl, rfl, last, takes⟩ := ih width taken
    refine ⟨'\\' :: u, r, rfl, rfl, ?_, fun r' follows => ?_⟩
    · rw [List.getLast?_cons, last]
      rfl
    · have same := escapeEnd_append (List.mem_of_getLast? last) r r'
      rw [List.cons_append, escapedEnd, ← same, hw]
      exact congrArg (Option.map (· + 1)) (takes r' follows)
  | case6 c t doubled closing escape ih =>
    obtain ⟨k, hk, rfl⟩ := Option.map_eq_some_iff.1 h
    exact (ih hk).cons fun x _ _ => escapedEnd.eq_6 c x (fun _ quote _ => closing quote) closing escape

theorem unicodeEnd_quote {r : Text} (h : r.head? ≠ some '\'') : unicodeEnd 0 ('\'' :: r) = some 1 := by
  cases r with
  | nil => simp [unicodeEnd]
  | cons d r =>
    have other : d ≠ '\'' := fun same => h (congrArg some same)
    rw [unicodeEnd]
    simpa using other

/-- An escape with a code point in `width` digits, behind its backslash and `skip` characters more. -/
def codeEnd (skip width : Nat) (t : Text) : Option Nat :=
  let digits := (t.drop skip).take width
  if digits.length = width && digits.all isHexDigit && isCodePoint (value 16 digits) then
    (unicodeEnd (skip + width) t).map (· + 1)
  else none

theorem unicodeEnd_backslash (t : Text) : unicodeEnd 0 ('\\' :: t) =
    if t.head? = some '\\' then (unicodeEnd 1 t).map (· + 1)
    else if t.head? = some '+' then codeEnd 1 6 t
    else codeEnd 0 4 t := by
  rw [unicodeEnd]
  split
  · next h => rw [if_pos h]
  · next h => rw [if_neg (by rw [h]; decide), if_pos h, codeEnd]
  · next h h' => rw [if_neg h, if_neg h', codeEnd]

theorem unicodeEnd_ne_zero (pending : Nat) (t : Text) : unicodeEnd pending t ≠ some 0 := by
  fun_cases unicodeEnd pending t with
  | case6 _ code _ | case7 _ code _ _ =>
    dsimp only [code]
    split <;> simp
  | _ => simp

/-- Characters that are still to be passed are part of what is taken. -/
theorem le_of_unicodeEnd (h : unicodeEnd pending t = some n) : pending < n := by
  induction pending generalizing t n with
  | zero =>
    refine Nat.pos_of_ne_zero ?_
    rintro rfl
    exact unicodeEnd_ne_zero 0 t h
  | succ pending ih =>
    cases t with
    | nil => cases h
    | cons c t =>
      rw [unicodeEnd] at h
      obtain ⟨k, hk, rfl⟩ := Option.map_eq_some_iff.1 h
      have := ih hk
      omega

/-- The digits are passed, so they are part of what is taken. -/
theorem ends_codeEnd {skip width : Nat}
    (within : ∀ k, unicodeEnd (skip + width) t = some k → Ends (unicodeEnd (skip + width)) '\'' t k)
    (step : ∀ x : Text, x.head? = t.head? → unicodeEnd 0 ('\\' :: x) = codeEnd skip width x)
    (h : codeEnd skip width t = some n) : Ends (unicodeEnd 0) '\'' ('\\' :: t) n := by
  rw [codeEnd] at h
  split at h
  · next valid =>
    obtain ⟨k, hk, rfl⟩ := Option.map_eq_some_iff.1 h
    have passed := le_of_unicodeEnd hk
    obtain ⟨u, r, rfl, rfl, last, takes⟩ := within k hk
    refine ⟨'\\' :: u, r, rfl, rfl, ?_, fun r' follows => ?_⟩
    · rw [List.getLast?_cons, last]
      rfl
    · have digits : ((u ++ r').drop skip).take width = ((u ++ r).drop skip).take width := by
        rw [List.take_drop, List.take_drop, List.take_append_of_le_length (by omega),
          List.take_append_of_le_length (by omega)]
      have first : (u ++ r').head? = (u ++ r).head? := by
        cases u with
        | nil => cases last
        | cons c u => rfl
      rw [List.cons_append, step _ first, codeEnd, digits, if_pos valid, takes r' follows]
      rfl
  · cases h

theorem ends_unicodeEnd (h : unicodeEnd pending t = some n) : Ends (unicodeEnd pending) '\'' t n := by
  fun_induction unicodeEnd pending t generalizing n with
  | case1 => cases h
  | case2 pending c t ih =>
    obtain ⟨k, hk, rfl⟩ := Option.map_eq_some_iff.1 h
    exact (ih hk).cons fun x _ _ => by rw [unicodeEnd]
  | case3 t ih =>
    obtain ⟨k, hk, rfl⟩ := Option.map_eq_some_iff.1 h
    exact (ih hk).cons_cons fun x => by rw [unicodeEnd]
  | case4 t other =>
    cases h
    refine .one fun r' follows => unicodeEnd_quote fun first => ?_
    obtain ⟨y, rfl⟩ := List.head?_eq_some_iff.1 (follows first)
    exact other y rfl
  | case5 t doubled _ ih =>
    obtain ⟨k, hk, rfl⟩ := Option.map_eq_some_iff.1 h
    refine (ih hk).cons fun x _ same => ?_
    rw [unicodeEnd_backslash, if_pos (same.trans doubled)]
  | case6 t _ plus =>
    rename_i ih
    refine ends_codeEnd (fun k => ih 1 6) (fun x same => ?_) h
    rw [unicodeEnd_backslash, if_neg (by rw [same, plus]; decide), if_pos (same.trans plus)]
  | case7 t _ other other' =>
    rename_i ih
    refine ends_codeEnd (fun k => ih 0 4) (fun x same => ?_) h
    rw [unicodeEnd_backslash, if_neg (same ▸ other), if_neg (same ▸ other')]
  | case8 c t doubled closing escape ih =>
    obtain ⟨k, hk, rfl⟩ := Option.map_eq_some_iff.1 h
    refine (ih hk).cons fun x _ _ => ?_
    exact unicodeEnd.eq_6 c x (fun _ quote _ => closing quote) closing escape

end Escapes

section Closings
variable {scan scan' : Text → Option Nat} {q c : Char} {t : Text} {n depth pending : Nat} {last : Char}
  {tag : Text}

/-- What a scan takes of a text ends with `q`, and it takes as much whatever follows. -/
def Closes (scan : Text → Option Nat) (q : Char) (t : Text) (n : Nat) : Prop :=
  ∃ u r, t = u ++ r ∧ u.length = n ∧ u.getLast? = some q ∧ ∀ r' : Text, scan (u ++ r') = some n

theorem Closes.ends (h : Closes scan q t n) : Ends scan q t n := by
  obtain ⟨u, r, cut, length, last, takes⟩ := h
  exact ⟨u, r, cut, length, last, fun r' _ => takes r'⟩

theorem Closes.cons (h : Closes scan q t n)
    (step : ∀ u r r' : Text, u ≠ [] → t = u ++ r → u.length = n →
      scan' (c :: (u ++ r')) = (scan (u ++ r')).map (· + 1)) :
    Closes scan' q (c :: t) (n + 1) := by
  obtain ⟨u, r, rfl, rfl, last, takes⟩ := h
  have filled : u ≠ [] := by
    rintro rfl
    cases last
  refine ⟨c :: u, r, rfl, rfl, ?_, fun r' => ?_⟩
  · rw [List.getLast?_cons, last]
    rfl
  · rw [List.cons_append, step u r r' filled rfl rfl, takes]
    rfl

/-- Behind `n` characters or more the text may be exchanged. -/
theorem Closes.exchange {w s : Text} (h : Closes scan q (w ++ s) n) (inside : n ≤ w.length) (s' : Text) :
    scan (w ++ s') = some n := by
  obtain ⟨u, r, whole, rfl, -, takes⟩ := h
  obtain ⟨w', rfl, rfl⟩ := Text.exists_append_of_length_le whole.symm inside
  rw [List.append_assoc]
  exact takes _

theorem closes_blockCommentEnd (h : blockCommentEnd depth last t = some n) :
    Closes (blockCommentEnd depth last) '/' t n := by
  fun_induction blockCommentEnd depth last t generalizing n with
  | case1 => cases h
  | case2 depth last c t opens ih =>
    obtain ⟨k, hk, rfl⟩ := Option.map_eq_some_iff.1 h
    exact (ih hk).cons fun u r r' _ _ _ => by rw [blockCommentEnd, if_pos opens]
  | case3 last c t other closing =>
    cases h
    refine ⟨[c], t, rfl, rfl, congrArg some closing.2, fun r' => ?_⟩
    rw [List.singleton_append, blockCommentEnd, if_neg other, if_pos closing, if_pos rfl]
  | case4 depth last c t other closing inner ih =>
    obtain ⟨k, hk, rfl⟩ := Option.map_eq_some_iff.1 h
    refine (ih hk).cons fun u r r' _ _ _ => ?_
    rw [blockCommentEnd, if_neg other, if_pos closing, if_neg inner]
  | case5 depth last c t other other' ih =>
    obtain ⟨k, hk, rfl⟩ := Option.map_eq_some_iff.1 h
    refine (ih hk).cons fun u r r' _ _ _ => ?_
    rw [blockCommentEnd, if_neg other, if_neg other']

theorem closes_dollarsEnd (h : dollarsEnd t = some n) : Closes dollarsEnd '$' t n := by
  fun_induction dollarsEnd t generalizing n with
  | case1 => cases h
  | case2 => cases h
  | case3 c d t both =>
    cases h
    refine ⟨[c, d], t, rfl, rfl, congrArg some both.2, fun r' => ?_⟩
    exact if_pos both
  | case4 c d t other ih =>
    obtain ⟨k, hk, rfl⟩ := Option.map_eq_some_iff.1 h
    refine (ih hk).cons fun u r r' filled cut _ => ?_
    obtain ⟨e, u, rfl⟩ := List.exists_cons_of_ne_nil filled
    obtain ⟨rfl, -⟩ := List.cons.inj cut
    exact if_neg other

/-- For how long a text agrees with the tag. -/
def agreed (tag t : Text) : Nat := ((tag.zip t).takeWhile fun (a, b) => a = b).length

theorem agreed_append {u : Text} (r r' : Text) (h : agreed tag (u ++ r) < u.length) :
    agreed tag (u ++ r') = agreed tag (u ++ r) := by
  induction u generalizing tag with
  | nil => cases h
  | cons c u ih =>
    cases tag with
    | nil => rfl
    | cons a tag =>
      simp only [agreed, List.cons_append, List.zip_cons_cons, List.takeWhile_cons] at h ⊢
      split
      · next same =>
        rw [if_pos same] at h
        exact congrArg (· + 1) (ih (Nat.lt_of_succ_lt_succ h))
      · rfl

theorem taggedEnd_dollar (tag t : Text) : taggedEnd tag 0 ('$' :: t) =
    if agreed tag t = tag.length then
      if (t.drop (agreed tag t)).head? = some '$' then some (agreed tag t + 2)
      else (taggedEnd tag (agreed tag t) t).map (· + 1)
    else (taggedEnd tag (agreed tag t + 1) t).map (· + 1) := by
  rw [taggedEnd, if_pos rfl]
  rfl

theorem taggedEnd_other (h : c ≠ '$') (tag t : Text) :
    taggedEnd tag 0 (c :: t) = (taggedEnd tag 0 t).map (· + 1) := by
  rw [taggedEnd, if_neg h]

theorem taggedEnd_ne_zero (tag t : Text) : taggedEnd tag 0 t ≠ some 0 := by
  cases t with
  | nil => simp [taggedEnd]
  | cons c t =>
    by_cases h : c = '$'
    · subst h
      rw [taggedEnd_dollar]
      split
      · split <;> simp
      · simp
    · simp [taggedEnd_other h]

/-- Characters that are still to be passed are part of what is taken. -/
theorem le_of_taggedEnd (h : taggedEnd tag pending t = some n) : pending < n := by
  induction pending generalizing t n with
  | zero =>
    refine Nat.pos_of_ne_zero ?_
    rintro rfl
    exact taggedEnd_ne_zero tag t h
  | succ pending ih =>
    cases t with
    | nil => cases h
    | cons c t =>
      rw [taggedEnd] at h
      obtain ⟨k, hk, rfl⟩ := Option.map_eq_some_iff.1 h
      have := ih hk
      omega

theorem closes_taggedEnd_whole (whole : agreed tag t = tag.length)
    (closing : (t.drop (agreed tag t)).head? = some '$') :
    Closes (taggedEnd tag 0) '$' ('$' :: t) (agreed tag t + 2) := by
  obtain ⟨z, rest⟩ := List.head?_eq_some_iff.1 closing
  obtain ⟨x, rfl, length⟩ : ∃ x, t = x ++ '$' :: z ∧ x.length = agreed tag t := by
    have more := congrArg List.length rest
    rw [List.length_drop, List.length_cons] at more
    exact ⟨t.take (agreed tag t), by rw [← rest, List.take_append_drop],
      List.length_take_of_le (by omega)⟩
  have more : x ++ '$' :: z = x ++ ['$'] ++ z := (List.append_cons x '$' z)
  have last : ('$' :: (x ++ ['$'])).getLast? = some '$' := by
    rw [← List.cons_append, List.getLast?_concat]
  refine ⟨'$' :: (x ++ ['$']), z, congrArg _ more, by simp [length], last, fun r' => ?_⟩
  rw [more] at whole length ⊢
  have same := agreed_append (u := x ++ ['$']) z r' (by
    rw [← length, List.length_append]
    exact Nat.lt_succ_self _)
  rw [List.cons_append, taggedEnd_dollar, same, if_pos whole, ← length, if_pos]
  rw [List.append_assoc, List.drop_left]
  rfl

/-- How far a text agrees with the tag is seen before the closing tag ends. -/
theorem closes_taggedEnd (h : taggedEnd tag pending t = some n) :
    Closes (taggedEnd tag pending) '$' t n := by
  induction t generalizing pending n with
  | nil => cases pending <;> cases h
  | cons c t ih =>
    cases pending with
    | succ pending =>
      rw [taggedEnd] at h
      obtain ⟨k, hk, rfl⟩ := Option.map_eq_some_iff.1 h
      exact (ih hk).cons fun u r r' _ _ _ => by rw [taggedEnd]
    | zero =>
      by_cases dollar : c = '$'
      · subst dollar
        rw [taggedEnd_dollar] at h
        by_cases whole : agreed tag t = tag.length
        · rw [if_pos whole] at h
          by_cases closing : (t.drop (agreed tag t)).head? = some '$'
          · rw [if_pos closing] at h
            cases h
            exact closes_taggedEnd_whole whole closing
          · rw [if_neg closing] at h
            obtain ⟨k, hk, rfl⟩ := Option.map_eq_some_iff.1 h
            have passed := le_of_taggedEnd hk
            refine (ih hk).cons fun u r r' _ cut length => ?_
            subst cut length
            have same := agreed_append r r' passed
            have next (z : Text) : ((u ++ z).drop (agreed tag (u ++ r))).head? =
                (u.drop (agreed tag (u ++ r))).head? := by
              rw [List.drop_append_of_le_length (by omega), List.head?_append]
              have filled : (u.drop (agreed tag (u ++ r))).head?.isSome := by simpa using passed
              rw [Option.or_of_isSome filled]
            rw [taggedEnd_dollar, same, if_pos whole, next, ← next r, if_neg closing]
        · rw [if_neg whole] at h
          obtain ⟨k, hk, rfl⟩ := Option.map_eq_some_iff.1 h
          have passed := le_of_taggedEnd hk
          refine (ih hk).cons fun u r r' _ cut length => ?_
          subst cut length
          rw [taggedEnd_dollar, agreed_append r r' (by omega), if_neg whole]
      · rw [taggedEnd_other dollar] at h
        obtain ⟨k, hk, rfl⟩ := Option.map_eq_some_iff.1 h
        exact (ih hk).cons fun u r r' _ _ _ => taggedEnd_other dollar _ _

end Closings
end HostSql.Sql.Lexer
