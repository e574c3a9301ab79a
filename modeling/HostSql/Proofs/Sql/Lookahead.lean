import HostSql.Proofs.Sql.Scans

/-! What follows a token does not change it, as long as it starts with a character that lengthens no
token. A line comment starts with such a character, and so does a line break. -/
namespace HostSql.Sql.Lexer

/-- No word or number goes on with the text: it starts with no such character, and with no sign that
a digit follows. -/
structure Stops (d : Dialect) (s : Text) : Prop where
  word : s.head?.any d.continuesWord = false
  point : s.head? ≠ some '.'
  power : s.head? = some '+' ∨ s.head? = some '-' → (s.drop 1).head?.any Char.isDigit = false

section Runs
variable {d : Dialect} {p q : Char → Bool} {c e : Char} {s w x z : Text} {n : Nat}

theorem isAlpha_iff :
    c.isAlpha ↔ 'A'.val ≤ c.val ∧ c.val ≤ 'Z'.val ∨ 'a'.val ≤ c.val ∧ c.val ≤ 'z'.val := by
  change (decide ('A'.val ≤ c.val ∧ c.val ≤ 'Z'.val) ||
    decide ('a'.val ≤ c.val) && decide (c.val ≤ 'z'.val)) = true ↔ _
  simp only [Bool.or_eq_true, Bool.and_eq_true, decide_eq_true_eq]

theorem isLetter_of_isAlpha (h : c.isAlpha) : isLetter c := by
  have ascii : c.toNat < 128 := by
    rcases isAlpha_iff.1 h with ⟨-, h⟩ | ⟨-, h⟩
    · exact Nat.lt_of_le_of_lt (UInt32.le_iff_toNat_le.1 h) (by decide)
    · exact Nat.lt_of_le_of_lt (UInt32.le_iff_toNat_le.1 h) (by decide)
  rw [isLetter, if_pos ascii]
  exact h

theorem continuesWord_of_isAlphanum (h : c.isAlphanum) (d : Dialect) : d.continuesWord c := by
  simp only [Char.isAlphanum, Bool.or_eq_true] at h
  have letter (h : c.isAlpha) := isLetter_of_isAlpha h
  rcases h with h | h
  · cases d <;> simp [Dialect.continuesWord, Dialect.startsWord, Char.isAlphanum, h, letter h]
  · cases d <;> simp [Dialect.continuesWord, Dialect.startsWord, Char.isAlphanum, h]

theorem isAlphanum_of_isHexDigit (h : isHexDigit c) : c.isAlphanum := by
  simp only [isHexDigit, Bool.or_eq_true, Bool.and_eq_true, decide_eq_true_eq, Char.le_def] at h
  rw [Char.isAlphanum, Bool.or_eq_true, isAlpha_iff]
  rcases h with (h | ⟨h, h'⟩) | ⟨h, h'⟩
  · exact Or.inr h
  · exact Or.inl (Or.inr ⟨h, UInt32.le_trans h' (by decide)⟩)
  · exact Or.inl (Or.inl ⟨h, UInt32.le_trans h' (by decide)⟩)

/-- What stops words stops every run of their characters. -/
theorem Stops.any (h : Stops d s) (within : ∀ c, p c → d.continuesWord c) : s.head?.any p = false := by
  cases s with
  | nil => rfl
  | cons c s =>
    have stop : d.continuesWord c = false := h.word
    rw [List.head?_cons, Option.any_some, Bool.eq_false_iff]
    intro hc
    rw [within c hc] at stop
    cases stop

theorem Stops.head (h : Stops d s) (hc : c.isAlphanum) : s.head? ≠ some c := by
  intro same
  have stop := h.word
  rw [same, Option.any_some, continuesWord_of_isAlphanum hc] at stop
  cases stop

theorem takeWhile_append (h : s.head?.any p = false) (w : Text) :
    (w ++ s).takeWhile p = w.takeWhile p := by
  obtain ⟨u, v, rfl, inside, stop⟩ := Text.exists_takeWhile p w
  rw [List.append_assoc, Text.takeWhile_stop inside, Text.takeWhile_stop inside stop]
  cases v with
  | nil => exact h
  | cons c v => exact stop

theorem run_append (h : s.head?.any p = false) (w : Text) : run p (w ++ s) = run p w := by
  rw [run, takeWhile_append h, run]

theorem run_le (p : Char → Bool) (t : Text) : run p t ≤ t.length :=
  (List.takeWhile_prefix p).length_le

/-- A run ends at the same place if it ended before the text that is exchanged, and the new text does
not lengthen it where the old one did not. -/
theorem run_exchange {s' : Text} (inside : run p (w ++ s) ≤ w.length)
    (h : s'.head?.any p = true → s.head?.any p = true) : run p (w ++ s') = run p (w ++ s) := by
  cases hs : s.head?.any p with
  | false =>
    rw [run_append hs, run_append]
    rw [hs] at h
    simpa using h
  | true =>
    obtain ⟨u, v, rfl, all, stop⟩ := Text.exists_takeWhile p w
    cases v with
    | cons c v =>
      rw [List.append_assoc, List.append_assoc, run, run, Text.takeWhile_stop all (t := c :: v ++ s) stop,
        Text.takeWhile_stop all (t := c :: v ++ s') stop]
    | nil =>
      cases s with
      | nil => cases hs
      | cons c s =>
        change p c = true at hs
        rw [run, List.append_nil, List.takeWhile_append_of_pos all, List.takeWhile_cons_of_pos hs,
          List.length_append, List.length_cons] at inside
        omega

/-- The part of a run that stands before what stops it. -/
theorem run_drop (h : s.head?.any p = false) (inside : n ≤ w.length) :
    run p ((w ++ s).drop n) = run p (w.drop n) := by
  rw [List.drop_append_of_le_length inside, run_append h]

theorem head?_drop (inside : n ≤ w.length) (h : s.head? ≠ some c) :
    ((w ++ s).drop n).head? = some c ↔ (w.drop n).head? = some c := by
  rw [List.drop_append_of_le_length inside]
  cases w.drop n with
  | nil => simpa using h
  | cons e z => rfl

end Runs

section Numbers
variable {d : Dialect} {s x : Text} {n : Nat}

/-- Digits with a point among them. -/
def mantissa (t : Text) : Nat :=
  let whole := run Char.isDigit t
  let point := if (t.drop whole).head? == some '.' then 1 else 0
  whole + point + run Char.isDigit (t.drop (whole + point))

def isPowerMark (t : Text) : Bool := t.head? == some 'e' || t.head? == some 'E'

/-- A mark and, where one follows it, a sign. -/
def signWidth : Text → Nat
  | _ :: '+' :: _ | _ :: '-' :: _ => 2
  | _ => 1

/-- The digits behind a mark. -/
def power (t : Text) : Nat := if isPowerMark t then run Char.isDigit (t.drop (signWidth t)) else 0

/-- `n` characters, and a mark with digits behind them. -/
def withPower (n : Nat) (t : Text) : Nat := if 0 < power t then n + signWidth t + power t else n

theorem Stops.digit (h : Stops d s) : s.head?.any Char.isDigit = false :=
  h.any fun c hc => continuesWord_of_isAlphanum (by simp [Char.isAlphanum, hc]) d

theorem mantissa_append (h : Stops d s) (x : Text) :
    mantissa (x ++ s) = mantissa x ∧ mantissa x ≤ x.length := by
  have whole := run_le Char.isDigit x
  rw [mantissa, run_append h.digit, mantissa]
  simp only [beq_iff_eq, head?_drop whole h.point]
  have inside : run Char.isDigit x + (if (x.drop (run Char.isDigit x)).head? = some '.' then 1 else 0) ≤
      x.length := by
    split
    · next point =>
      obtain ⟨z, rest⟩ := List.head?_eq_some_iff.1 point
      have more := congrArg List.length rest
      rw [List.length_drop, List.length_cons] at more
      omega
    · exact whole
  refine ⟨by rw [run_drop h.digit inside], ?_⟩
  have more := run_le Char.isDigit
    (x.drop (run Char.isDigit x + (if (x.drop (run Char.isDigit x)).head? = some '.' then 1 else 0)))
  rw [List.length_drop] at more
  omega

theorem signWidth_cons_cons (e e' : Char) (z : Text) :
    signWidth (e :: e' :: z) = if e' = '+' ∨ e' = '-' then 2 else 1 := by
  by_cases plus : e' = '+'
  · subst plus
    rfl
  · by_cases minus : e' = '-'
    · subst minus
      rfl
    · rw [if_neg (not_or.2 ⟨plus, minus⟩), signWidth]
      · intro _ _ same
        exact plus (List.cons.inj (List.cons.inj same).2).1
      · intro _ _ same
        exact minus (List.cons.inj (List.cons.inj same).2).1

theorem power_of_eq_zero {t : Text} (h : run Char.isDigit (t.drop (signWidth t)) = 0) : power t = 0 := by
  rw [power, h, ite_self]

theorem power_append (h : Stops d s) (x : Text) : power (x ++ s) = power x ∧
    (0 < power x → signWidth (x ++ s) = signWidth x ∧ signWidth x + power x ≤ x.length) := by
  match x with
  | [] =>
    have unmarked : isPowerMark s = false := by
      simp [isPowerMark, h.head (c := 'e') (by decide), h.head (c := 'E') (by decide)]
    have none : power s = 0 := by simp [power, unmarked]
    exact ⟨none, fun positive => absurd positive (Nat.lt_irrefl 0)⟩
  | [e] =>
    have alone : power [e] = 0 := power_of_eq_zero rfl
    have followed : power ([e] ++ s) = 0 := by
      apply power_of_eq_zero
      cases s with
      | nil => rfl
      | cons e' z =>
        rw [List.singleton_append, signWidth_cons_cons]
        split
        · next sign => exact run_append (h.power (sign.imp (congrArg some) (congrArg some))) []
        · exact run_append h.digit []
    rw [alone, followed]
    exact ⟨rfl, fun positive => absurd positive (Nat.lt_irrefl 0)⟩
  | e :: e' :: z =>
    have width : signWidth (e :: e' :: z) ≤ (e :: e' :: z).length := by
      rw [signWidth_cons_cons]
      split <;> simp
    have same : signWidth (e :: e' :: z ++ s) = signWidth (e :: e' :: z) := by
      rw [List.cons_append, List.cons_append, signWidth_cons_cons, signWidth_cons_cons]
    have mark : isPowerMark (e :: e' :: z ++ s) = isPowerMark (e :: e' :: z) := rfl
    refine ⟨by rw [power, same, run_drop h.digit width, mark, power], fun _ => ⟨same, ?_⟩⟩
    have le := run_le Char.isDigit ((e :: e' :: z).drop (signWidth (e :: e' :: z)))
    rw [List.length_drop] at le
    rw [power]
    split <;> omega

theorem withPower_append (h : Stops d s) (n : Nat) (x : Text) :
    withPower n (x ++ s) = withPower n x ∧ withPower n x ≤ n + x.length := by
  obtain ⟨same, inside⟩ := power_append h x
  rw [withPower, withPower, same]
  by_cases positive : 0 < power x
  · obtain ⟨width, le⟩ := inside positive
    rw [if_pos positive, if_pos positive, width]
    exact ⟨rfl, by omega⟩
  · rw [if_neg positive, if_neg positive]
    exact ⟨rfl, by omega⟩

/-- What a number ends with is seen in what follows its digits. -/
def numberEnd (d : Dialect) (t : Text) (powered : Bool) (n : Nat) : TokenKind × Nat :=
  let letters := run d.continuesWord (t.drop n)
  if d.wordsStartWithDigits && !powered && 0 < letters then (.word, n + letters - 1)
  else if (t.drop n).head? == some 'L' then (.number, n)
  else (.number, n - 1)

theorem numberEnd_append (h : Stops d s) (powered : Bool) (inside : n ≤ x.length) :
    numberEnd d (x ++ s) powered n = numberEnd d x powered n := by
  have long := head?_drop inside (h.head (c := 'L') (by decide))
  simp only [numberEnd, run_drop h.word inside, beq_iff_eq, long]

theorem number_eq (d : Dialect) (c : Char) (t : Text) : number d c t =
    if run Char.isDigit (c :: t) == 1 && c == '0' && t.head? == some 'x' then
      (.string .special, 1 + run isHexDigit (t.drop 1))
    else if run Char.isDigit (c :: t) == 0 && mantissa (c :: t) == 1 then (.symbol, 0)
    else numberEnd d (c :: t) (isPowerMark ((c :: t).drop (mantissa (c :: t))))
      (withPower (mantissa (c :: t)) ((c :: t).drop (mantissa (c :: t)))) := rfl

theorem number_append (h : Stops d s) (c : Char) (w : Text) : number d c (w ++ s) = number d c w := by
  have hex : s.head?.any isHexDigit = false :=
    h.any fun c hc => continuesWord_of_isAlphanum (isAlphanum_of_isHexDigit hc) d
  obtain ⟨same, inside⟩ := mantissa_append h (c :: w)
  have rest : (c :: w ++ s).drop (mantissa (c :: w)) = (c :: w).drop (mantissa (c :: w)) ++ s :=
    List.drop_append_of_le_length inside
  obtain ⟨same', inside'⟩ := withPower_append h (mantissa (c :: w)) ((c :: w).drop (mantissa (c :: w)))
  rw [List.length_drop] at inside'
  have mark : isPowerMark ((c :: w).drop (mantissa (c :: w)) ++ s) =
      isPowerMark ((c :: w).drop (mantissa (c :: w))) := by
    cases (c :: w).drop (mantissa (c :: w)) with
    | nil => simp [isPowerMark, h.head (c := 'e') (by decide), h.head (c := 'E') (by decide)]
    | cons e z => rfl
  rw [number_eq, number_eq, ← List.cons_append, run_append h.digit, same, rest, same', mark,
    numberEnd_append h _ (by omega)]
  cases w with
  | nil => simp [h.head (c := 'x') (by decide)]
  | cons e w =>
    have digits : run isHexDigit (w ++ s) = run isHexDigit w := run_append hex w
    rw [List.cons_append, List.drop_succ_cons, List.drop_succ_cons, List.drop_zero, List.drop_zero, digits]
    rfl

theorem stops_nil (d : Dialect) : Stops d [] :=
  ⟨rfl, nofun, fun h => by rcases h with h | h <;> cases h⟩

theorem numberEnd_le (powered : Bool) (inside : n ≤ x.length) (filled : x ≠ []) :
    (numberEnd d x powered n).2 < x.length := by
  have positive := List.length_pos_iff.2 filled
  have letters := run_le d.continuesWord (x.drop n)
  rw [List.length_drop] at letters
  rw [numberEnd]
  split
  · dsimp only
    omega
  · split
    · next long =>
      obtain ⟨z, rest⟩ := List.head?_eq_some_iff.1 (beq_iff_eq.1 long)
      have more := congrArg List.length rest
      rw [List.length_drop, List.length_cons] at more
      dsimp only
      omega
    · dsimp only
      omega

theorem number_le (d : Dialect) (c : Char) (w : Text) : (number d c w).2 ≤ w.length := by
  obtain ⟨-, inside⟩ := mantissa_append (stops_nil d) (c :: w)
  obtain ⟨-, inside'⟩ := withPower_append (stops_nil d) (mantissa (c :: w)) ((c :: w).drop (mantissa (c :: w)))
  rw [List.length_drop] at inside'
  rw [number_eq]
  split
  · next hex =>
    obtain ⟨z, rfl⟩ := List.head?_eq_some_iff.1 (beq_iff_eq.1 (Bool.and_eq_true_iff.1 hex).2)
    have := run_le isHexDigit z
    simp only [List.drop_succ_cons, List.drop_zero, List.length_cons]
    omega
  · split
    · exact Nat.zero_le _
    · exact Nat.le_of_lt_succ (numberEnd_le _ (by omega) (List.cons_ne_nil _ _))

end Numbers

section Operators
variable {d : Dialect} {c : Char} {s s' w x z : Text} {n : Nat} {operators : List String}

theorem findOperator_cons (o : String) (operators : List String) (t : Text) :
    findOperator (o :: operators) t =
      if (Text.strip? o.toList t).isSome then some o.length else findOperator operators t := by
  rw [findOperator, List.find?_cons]
  cases (Text.strip? o.toList t).isSome <;> rfl

theorem isSome_strip?_iff {o t : Text} : (Text.strip? o t).isSome ↔ o <+: t := by
  rw [Option.isSome_iff_exists]
  exact exists_congr fun _ => Text.strip?_eq_some_iff.trans eq_comm

/-- The operator that is found stays the same if it ends before the text that is exchanged, and no
longer one reaches into the new text. -/
theorem findOperator_exchange (inside : ∀ n, findOperator operators (x ++ s) = some n → n ≤ x.length)
    (apart : ∀ o ∈ operators, x.length < o.length → ¬o.toList <+: x ++ s') :
    findOperator operators (x ++ s') = findOperator operators (x ++ s) := by
  induction operators with
  | nil => rfl
  | cons o operators ih =>
    have short (h : o.length ≤ x.length) (r : Text) : o.toList <+: x ++ r ↔ o.toList <+: x :=
      ⟨fun inside => List.prefix_of_prefix_length_le inside (List.prefix_append x r) (by rwa [String.length_toList]),
        fun inside => inside.trans (List.prefix_append x r)⟩
    simp only [findOperator_cons, isSome_strip?_iff] at inside ⊢
    by_cases here : o.toList <+: x ++ s
    · have le := inside o.length (if_pos here)
      rw [if_pos here, if_pos ((short le s').2 ((short le s).1 here))]
    · rw [if_neg here] at inside
      have there : ¬o.toList <+: x ++ s' := by
        by_cases le : o.length ≤ x.length
        · rwa [short le, ← short le s]
        · exact apart o List.mem_cons_self (Nat.lt_of_not_le le)
      rw [if_neg here, if_neg there]
      exact ih inside fun o' mem => apart o' (List.mem_cons_of_mem o mem)

theorem getElem?_of_prefix {o : Text} {e : Char} (long : x.length < o.length) (h : o <+: x ++ e :: z) :
    o[x.length]? = some e ∧ o.take x.length = x := by
  obtain ⟨r, whole⟩ := h
  obtain ⟨y, rfl, rest⟩ := Text.exists_append_of_length_le whole.symm (Nat.le_of_lt long)
  refine ⟨?_, List.take_left⟩
  cases y with
  | nil =>
    rw [List.append_nil] at long
    exact absurd long (Nat.lt_irrefl _)
  | cons e' y =>
    obtain ⟨rfl, -⟩ := List.cons.inj rest
    rw [List.getElem?_append_right (Nat.le_refl _), Nat.sub_self]
    rfl

theorem no_slash_in_plain : ∀ o ∈ plainOperators, ∀ i < o.toList.length, 0 < i → o.toList[i]? ≠ some '/' := by
  decide

/-- A slash follows one or two bars only. -/
theorem slash_in_open : ∀ o ∈ openOperators, ∀ i < o.toList.length, 0 < i → o.toList[i]? = some '/' →
    o.toList.take i = ['|'] ∨ o.toList.take i = ['|', '|'] := by
  decide

end Operators

section Comments
variable {d : Dialect} {c : Char} {s w x z : Text} {n : Nat}

/-- A text that starts with a line comment. -/
inductive OpensComment (d : Dialect) : Text → Prop
  | dashes (z : Text) : OpensComment d ('-' :: '-' :: z)
  | hash (z : Text) (h : d.hasHashComments = true) : OpensComment d ('#' :: z)
  | slashes (z : Text) (h : d.hasSlashComments = true) : OpensComment d ('/' :: '/' :: z)

/-- A token that would go on with the sign of a block comment directly behind it. -/
def joinsSlash (d : Dialect) (t : Text) : Bool :=
  t == ['|'] || t == ['|', '|'] || t == ['/'] && (d.hasSlashComments || d.dividesWithSlashes)

theorem stops_cons (hc : d.continuesWord c = false) (other : c ≠ '.' ∧ c ≠ '+' ∧ c ≠ '-') (z : Text) :
    Stops d (c :: z) := by
  refine ⟨hc, fun h => other.1 (Option.some.inj h), fun h => ?_⟩
  rcases h with h | h
  · exact absurd (Option.some.inj h) other.2.1
  · exact absurd (Option.some.inj h) other.2.2

theorem stops_slash (d : Dialect) (z : Text) : Stops d ('/' :: z) :=
  stops_cons (by cases d <;> decide) (by decide) z

theorem OpensComment.stops (h : OpensComment d s) : Stops d s := by
  cases h with
  | dashes z =>
    have other : d.continuesWord '-' = false := by cases d <;> decide
    exact ⟨other, nofun, fun _ => rfl⟩
  | hash z hd =>
    have other : d.continuesWord '#' = false := by
      revert hd
      cases d <;> decide
    exact stops_cons other (by decide) z
  | slashes z => exact stops_slash d _

/-- Where the slash lengthens an operator, what opens a line comment does so, too. -/
theorem OpensComment.continuesOperator (h : OpensComment d s) (hd : d.continuesOperator '/' = true) :
    s.head?.any d.continuesOperator = true := by
  cases h with
  | dashes z =>
    have same : d.continuesOperator '-' = true := by
      revert hd
      cases d <;> decide
    exact same
  | hash z hash =>
    have same : d.continuesOperator '#' = true := by
      revert hd
      cases d <;> decide
    exact same
  | slashes z => exact hd

/-- Bars before a line comment are an operator. -/
theorem findOperator_bars (hs : OpensComment d s) {bars : Text} (h : bars = ['|'] ∨ bars = ['|', '|']) :
    ∃ n, findOperator openOperators (bars ++ s) = some n ∧ bars.length ≤ n := by
  rcases h with rfl | rfl
  · cases hs with
    | dashes z | hash z => exact ⟨1, rfl, Nat.le_refl 1⟩
    | slashes z => exact ⟨2, rfl, Nat.le_succ 1⟩
  · cases hs with
    | dashes z | hash z => exact ⟨2, rfl, Nat.le_refl 2⟩
    | slashes z => exact ⟨3, rfl, Nat.le_succ 2⟩

/-- What an operator of the second list takes, and whether it is lengthened. -/
def openOperator (d : Dialect) (t : Text) (n : Nat) : TokenKind × Nat :=
  let more := run d.continuesOperator (t.drop n)
  if 0 < more then (.customOperator, n + more - 1) else (.symbol, n - 1)

theorem openOperator_exchange (hs : OpensComment d s) (inside : (openOperator d (x ++ s) n).2 < x.length)
    (z : Text) : openOperator d (x ++ '/' :: z) n = openOperator d (x ++ s) n := by
  have le : n ≤ x.length := by
    rw [openOperator] at inside
    split at inside <;> dsimp only at inside <;> omega
  have more : run d.continuesOperator (x.drop n ++ s) ≤ (x.drop n).length := by
    rw [openOperator, List.drop_append_of_le_length le] at inside
    rw [List.length_drop]
    split at inside <;> dsimp only at inside <;> omega
  have same : run d.continuesOperator (x.drop n ++ '/' :: z) = run d.continuesOperator (x.drop n ++ s) :=
    run_exchange more hs.continuesOperator
  rw [openOperator, openOperator, List.drop_append_of_le_length le, List.drop_append_of_le_length le, same]

theorem findPlain_exchange (inside : ∀ n, findOperator plainOperators (c :: w ++ s) = some n → n ≤ w.length + 1)
    (z : Text) :
    findOperator plainOperators (c :: w ++ '/' :: z) = findOperator plainOperators (c :: w ++ s) := by
  refine findOperator_exchange inside fun o mem long starts => ?_
  rw [← String.length_toList] at long
  obtain ⟨slash, -⟩ := getElem?_of_prefix long starts
  exact no_slash_in_plain o mem _ long (Nat.succ_pos _) slash

theorem findOpen_exchange (hs : OpensComment d s)
    (inside : ∀ n, findOperator openOperators (c :: w ++ s) = some n → n ≤ w.length + 1)
    (free : ∀ n, findOperator openOperators (c :: w ++ s) = some n → n = w.length + 1 →
      joinsSlash d (c :: w) = false) (z : Text) :
    findOperator openOperators (c :: w ++ '/' :: z) = findOperator openOperators (c :: w ++ s) := by
  refine findOperator_exchange inside fun o mem long starts => ?_
  rw [← String.length_toList] at long
  obtain ⟨slash, front⟩ := getElem?_of_prefix long starts
  have bars := slash_in_open o mem _ long (Nat.succ_pos _) slash
  rw [front] at bars
  obtain ⟨n, found, le⟩ := findOperator_bars hs bars
  have joins := free n found (Nat.le_antisymm (inside n found) le)
  rcases bars with bars | bars <;> simp [joinsSlash, bars] at joins

theorem operator?_eq (d : Dialect) (c : Char) (t : Text) : operator? d c t =
    if c == '/' && t.head? == some '/' && d.dividesWithSlashes then some (.symbol, 1)
    else match findOperator plainOperators (c :: t) with
      | some n => some (.symbol, n - 1)
      | none => (findOperator openOperators (c :: t)).map (openOperator d (c :: t)) := rfl

/-- A slash with a comment directly behind it goes on with another slash. -/
theorem joinsSlash_of_slash (h : joinsSlash d ['/'] = false) :
    d.hasSlashComments = false ∧ d.dividesWithSlashes = false := by
  simpa [joinsSlash] using h

/-- Two slashes divide before the block comment where they do before the line comment. -/
theorem divides_exchange (free : w = [] → joinsSlash d (c :: w) = false) (s z : Text) :
    (c == '/' && (w ++ '/' :: z).head? == some '/' && d.dividesWithSlashes) =
      (c == '/' && (w ++ s).head? == some '/' && d.dividesWithSlashes) := by
  cases w with
  | cons e w => rfl
  | nil =>
    by_cases slash : c = '/'
    · subst slash
      simp [(joinsSlash_of_slash (free rfl)).2]
    · simp [beq_eq_false_iff_ne.2 slash]

/-- An operator of the second list stays the same, lengthened or not. -/
theorem mapOpen_exchange {kind : TokenKind} (hs : OpensComment d s)
    (h : ((findOperator openOperators (c :: w ++ s)).map (openOperator d (c :: w ++ s))).getD
      (.stray, 0) = (kind, n)) (inside : n ≤ w.length)
    (free : n = w.length → joinsSlash d (c :: w) = false) (z : Text) :
    (findOperator openOperators (c :: w ++ '/' :: z)).map (openOperator d (c :: w ++ '/' :: z)) =
      (findOperator openOperators (c :: w ++ s)).map (openOperator d (c :: w ++ s)) := by
  have taken (m : Nat) (found : findOperator openOperators (c :: w ++ s) = some m) :
      m ≤ n + 1 ∧ openOperator d (c :: w ++ s) m = (kind, n) := by
    rw [found] at h
    have same : openOperator d (c :: w ++ s) m = (kind, n) := h
    refine ⟨?_, same⟩
    rw [openOperator] at same
    split at same <;> cases same <;> omega
  rw [findOpen_exchange hs]
  · cases found : findOperator openOperators (c :: w ++ s) with
    | none => rfl
    | some m =>
      have same := (taken m found).2
      refine congrArg some (openOperator_exchange hs ?_ z)
      rw [same]
      exact Nat.lt_succ_of_le inside
  · intro m found
    have := (taken m found).1
    omega
  · intro m found all
    have := (taken m found).1
    exact free (by omega)

/-- An operator stays the same when a block comment takes the place of a line comment. -/
theorem operator?_exchange {kind : TokenKind} (hs : OpensComment d s)
    (h : (operator? d c (w ++ s)).getD (.stray, 0) = (kind, n)) (inside : n ≤ w.length)
    (free : n = w.length → joinsSlash d (c :: w) = false) (z : Text) :
    operator? d c (w ++ '/' :: z) = operator? d c (w ++ s) := by
  have alone (none : w = []) : joinsSlash d (c :: w) = false :=
    free (by subst none; exact Nat.le_zero.1 inside)
  rw [operator?_eq] at h
  rw [operator?_eq, operator?_eq, divides_exchange alone s z]
  split
  · rfl
  · next whole =>
    rw [if_neg whole] at h
    have plain (m : Nat) (found : findOperator plainOperators (c :: w ++ s) = some m) : m ≤ w.length + 1 := by
      rw [← List.cons_append, found] at h
      cases h
      omega
    rw [← List.cons_append, ← List.cons_append, findPlain_exchange plain]
    rw [← List.cons_append] at h
    cases found : findOperator plainOperators (c :: w ++ s) with
    | some m => rfl
    | none =>
      rw [found] at h
      exact mapOpen_exchange hs h inside free z

end Comments
end HostSql.Sql.Lexer
