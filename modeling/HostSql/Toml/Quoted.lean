import HostSql.Toml.Scan

/-! Strings: basic ones between double quotes, with escapes, and literal ones between single quotes,
each on one line, or on several lines between triple quotes. -/
namespace HostSql.Toml.Quoted

def hexDigit? (c : Char) : Option Nat :=
  if '0' ≤ c && c ≤ '9' then some (c.toNat - 48)
  else if 'a' ≤ c && c ≤ 'f' then some (c.toNat - 87)
  else if 'A' ≤ c && c ≤ 'F' then some (c.toNat - 55)
  else none

/-- The character whose code point is written with `n` hexadecimal digits. -/
def codePoint? (n : Nat) (t : Text) : Option (Char × Text) :=
  let digits := t.take n
  match digits.mapM hexDigit? with
  | some values =>
    let code := values.foldl (fun sum v => 16 * sum + v) 0
    if digits.length = n ∧ code.isValidChar then some (Char.ofNat code, t.drop n) else none
  | none => none

/-- The character that the text behind a backslash stands for. -/
def escape? : Text → Option (Char × Text)
  | 'b' :: t => some ('\x08', t)
  | 't' :: t => some ('\t', t)
  | 'n' :: t => some ('\n', t)
  | 'f' :: t => some ('\x0c', t)
  | 'r' :: t => some ('\r', t)
  | '"' :: t => some ('"', t)
  | '\\' :: t => some ('\\', t)
  | 'u' :: t => codePoint? 4 t
  | 'U' :: t => codePoint? 8 t
  | _ => none

theorem length_le_of_codePoint? {n : Nat} {t rest : Text} {c : Char}
    (h : codePoint? n t = some (c, rest)) : rest.length ≤ t.length := by
  simp only [codePoint?] at h
  split at h
  · split at h <;> simp at h
    simp [← h.2]
  · simp at h

theorem length_lt_of_escape? {t rest : Text} {c : Char} (h : escape? t = some (c, rest)) :
    rest.length < t.length := by
  unfold escape? at h
  split at h
  case h_8 | h_9 => exact Nat.lt_succ_of_le (length_le_of_codePoint? h)
  case h_10 => simp at h
  all_goals simp at h; simp [← h.2]

/-- Drops all blanks and line breaks at the beginning. -/
def dropBlank : Text → Text
  | '\r' :: '\n' :: t => dropBlank t
  | c :: t => if Scan.isSpace c || c == '\n' then dropBlank t else c :: t
  | [] => []

/-- A backslash at the end of a line takes away the line break and all blanks behind it. -/
def continued? (t : Text) : Option Text :=
  match t.dropWhile Scan.isSpace with
  | '\n' :: t => some (dropBlank t)
  | '\r' :: '\n' :: t => some (dropBlank t)
  | _ => none

theorem length_dropBlank_le (t : Text) : (dropBlank t).length ≤ t.length := by
  fun_induction dropBlank t with
  | case1 t ih => simp; omega
  | case2 c t _ _ ih => simp; omega
  | case3 => simp
  | case4 => simp

theorem length_dropWhile_le (p : Char → Bool) (t : Text) :
    (t.dropWhile p).length ≤ t.length := by
  induction t with
  | nil => simp
  | cons c t ih =>
    simp only [List.dropWhile_cons]
    split <;> simp
    omega

theorem length_lt_of_continued? {t rest : Text} (h : continued? t = some rest) :
    rest.length < t.length := by
  have bound := length_dropWhile_le Scan.isSpace t
  simp only [continued?] at h
  split at h
  case h_1 s e | h_2 s e =>
    have := length_dropBlank_le s
    rw [e] at bound
    simp only [Option.some.injEq] at h
    subst h
    simp at bound
    omega
  case h_3 => simp at h

/-- The rest of a basic string on one line. -/
def basic (t : Text) : Option (Text × Text) :=
  match t with
  | [] => none
  | '"' :: t => some ([], t)
  | '\\' :: t =>
    match _h : escape? t with
    | some (c, rest) => (basic rest).map fun (s, rest) => (c :: s, rest)
    | none => none
  | c :: t =>
    if Scan.isPlain c then (basic t).map fun (s, rest) => (c :: s, rest) else none
termination_by t.length
decreasing_by
  · have := length_lt_of_escape? _h
    simp only [List.length_cons]
    omega
  · simp only [List.length_cons]
    omega

/-- The rest of a literal string on one line. -/
def literal : Text → Option (Text × Text)
  | [] => none
  | '\'' :: t => some ([], t)
  | c :: t => if Scan.isPlain c then (literal t).map fun (s, rest) => (c :: s, rest) else none

/-- Three quotes close a string on several lines; one or two more quotes before them belong to the
string. -/
def closing? (quote : Char) (t : Text) : Option (Text × Text) :=
  let quotes := t.takeWhile (· == quote)
  if 3 ≤ quotes.length && quotes.length ≤ 5 then
    some (quotes.drop 3, t.drop quotes.length)
  else none

/-- The rest of a basic string on several lines. -/
def basicLines (t : Text) : Option (Text × Text) :=
  match closing? '"' t with
  | some ends => some ends
  | none =>
    match t with
    | [] => none
    | '"' :: '"' :: '"' :: _ => none
    | '\\' :: t =>
      match _h : continued? t with
      | some rest => basicLines rest
      | none =>
        match _h : escape? t with
        | some (c, rest) => (basicLines rest).map fun (s, rest) => (c :: s, rest)
        | none => none
    | '\r' :: '\n' :: t => (basicLines t).map fun (s, rest) => ('\n' :: s, rest)
    | c :: t =>
      if Scan.isPlain c || c == '\n' then (basicLines t).map fun (s, rest) => (c :: s, rest)
      else none
termination_by t.length
decreasing_by
  · have := length_lt_of_continued? _h
    simp only [List.length_cons]
    omega
  · have := length_lt_of_escape? _h
    simp only [List.length_cons]
    omega
  · simp only [List.length_cons]
    omega
  · simp only [List.length_cons]
    omega

/-- The rest of a literal string on several lines. -/
def literalLines (t : Text) : Option (Text × Text) :=
  match closing? '\'' t with
  | some ends => some ends
  | none =>
    match t with
    | [] => none
    | '\'' :: '\'' :: '\'' :: _ => none
    | '\r' :: '\n' :: t => (literalLines t).map fun (s, rest) => ('\n' :: s, rest)
    | c :: t =>
      if Scan.isPlain c || c == '\n' then (literalLines t).map fun (s, rest) => (c :: s, rest)
      else none

/-- A line break directly behind the opening quotes does not belong to the string. -/
def dropLineBreak : Text → Text
  | '\n' :: t => t
  | '\r' :: '\n' :: t => t
  | t => t

/-- A string on one line, as keys can be written too. -/
def short : Scan Text := fun
  | '"' :: t => basic t
  | '\'' :: t => literal t
  | _ => none

def string : Scan Text := fun
  | '"' :: '"' :: '"' :: t => basicLines (dropLineBreak t)
  | '\'' :: '\'' :: '\'' :: t => literalLines (dropLineBreak t)
  | t => short t

end HostSql.Toml.Quoted
