import HostSql.Proofs.Host.Decomposition

/-! Whether a body fits between two delimiters is asked of the bare literal, without marks and with
nothing around it. The answer decides how the literal reads wherever it stands: a scan finds it whole
exactly when its body fits. One place is an exception: a quote behind the two plain delimiters of an
empty literal makes them a triple one. -/
namespace HostSql.Literal
variable {l u : Literal} {q : Quote} {body w : Text} {rest : List UInt8}

/-- The plain delimiters of an empty literal and the byte behind them are three equal quotes. -/
structure Joined (l : Literal) (rest : List UInt8) : Prop where
  plain : l.quote.isTriple = false
  empty : l.body = []
  quote : rest.head? = some l.quote.byte

/-- A scan from byte `start` ends at the end of the literal and has found its delimiter and its body. -/
def FoundWhole (l : Literal) (bytes : List UInt8) (start : Nat) : Prop :=
  let first := start + Text.size (l.marks ++ l.quote.delimiter)
  let last := first + l.body.size
  ∃ e, scan bytes start = .terminated e ∧ e.quote = l.quote ∧ e.content = ⟨first, last⟩ ∧
    e.stop = last + Text.size l.quote.delimiter

/-- The literal with its body spelled byte by byte. -/
def glyphed (l : Literal) : Literal := ⟨l.marks, l.quote, spelled l.body⟩

theorem text_glyphed (marks : isMarks l.marks = true) : l.glyphed.text = spelled l.text := by
  simp only [text, glyphed, spelled_append, spelled_of_ascii (ascii_of_isMarks marks),
    spelled_of_ascii (ascii_delimiter l.quote)]

theorem length_of_ascii (h : ∀ c ∈ w, isAscii c = true) : w.length = w.size := by
  rw [← length_spelled, spelled_of_ascii h]

/-- A body that is enclosed byte by byte is enclosed. -/
theorem encloses_spelled_iff : q.Encloses (spelled body) ↔ q.Encloses body := by
  refine ⟨fun h => ?_, encloses_spelled⟩
  have bare : isMarks [] = true := rfl
  have marked : marks? (⟨[], q, body⟩ : Literal).text = some [] := by
    simpa using marks?_literal (l := ⟨[], q, body⟩) bare []
  have closed : read (spelled (⟨[], q, body⟩ : Literal).text) = .closed ⟨[], q, spelled body⟩ [] := by
    refine read_eq_closed_iff.2 ⟨⟨bare, h⟩, fun _ _ => by simp, ?_⟩
    rw [← text_glyphed bare, List.append_nil]
    rfl
  cases read : Literal.read (⟨[], q, body⟩ : Literal).text with
  | unclosed rest =>
    have unclosed := read_spelled_unclosed (by rw [marked]; rfl) read
    cases closed.symm.trans unclosed
  | closed u rest =>
    obtain ⟨sound, -, whole⟩ := read_eq_closed_iff.1 read
    have same := closed.symm.trans (read_spelled_closed read)
    injection same with literal behind
    injection literal with marks quote
    have ended : rest = [] := Text.eq_nil_of_size (by rw [← length_spelled, ← behind]; rfl)
    have inner : body = u.body := by
      simpa [text, ← marks, ← quote, ended] using whole
    rw [inner, quote]
    exact sound.body

theorem apart_iff (l : Literal) (rest : List UInt8) :
    l.glyphed.Apart (glyphs rest) ↔ ¬ l.Joined rest := by
  have first : (glyphs rest).head? = some l.quote.char ↔ rest.head? = some l.quote.byte := by
    cases rest with
    | nil => simp [glyphs]
    | cons b rest =>
      have char : Char.ofNat l.quote.byte.toNat = l.quote.char := by cases l.quote <;> rfl
      simp only [glyphs, List.map_cons, List.head?_cons, Option.some.injEq, ← char]
      exact ⟨glyph_inj, fun same => by rw [same]⟩
  have empty : spelled l.body = [] ↔ l.body = [] :=
    ⟨fun h => Text.eq_nil_of_size (by rw [← length_spelled, h]; rfl), fun h => by rw [h]; rfl⟩
  constructor
  · rintro apart ⟨plain, none, quote⟩
    exact apart plain (empty.2 none) (first.2 quote)
  · intro joined plain none quote
    exact joined ⟨plain, empty.1 none, first.1 quote⟩

/-- Reading finds the literal before `rest`. -/
theorem read_glyphed_iff (marks : isMarks l.marks = true) :
    read (spelled l.text ++ glyphs rest) = .closed l.glyphed (glyphs rest) ↔
      l.quote.fits l.body = true ∧ ¬ l.Joined rest := by
  rw [read_eq_closed_iff, apart_iff, text_glyphed marks, Quote.fits_iff]
  constructor
  · rintro ⟨sound, apart, -⟩
    exact ⟨encloses_spelled_iff.1 sound.body, apart⟩
  · rintro ⟨encloses, apart⟩
    exact ⟨⟨marks, encloses_spelled encloses⟩, apart, rfl⟩

/-- A literal that is found with the delimiter and the body of another one is that one. -/
theorem eq_of_found (same : u.text ++ w = l.text ++ glyphs rest) (marks : isMarks u.marks = true)
    (marks' : isMarks l.marks = true) (quote : u.quote = l.quote)
    (length : u.body.length = l.body.length) : u = l ∧ w = glyphs rest := by
  have marked := marks?_literal marks w
  rw [same, marks?_literal marks' (glyphs rest)] at marked
  obtain ⟨m, q, body⟩ := u
  obtain ⟨m', q', body'⟩ := l
  obtain rfl : q = q' := quote
  obtain rfl : m' = m := Option.some.inj marked
  simp only [text, List.append_assoc, List.append_cancel_left_eq] at same
  obtain ⟨rfl, behind⟩ := List.append_inj same length
  exact ⟨rfl, List.append_cancel_left behind⟩

theorem found_iff_read (marks : isMarks l.marks = true) (lead rest : List UInt8) :
    l.FoundWhole (lead ++ (l.text.bytes ++ rest)) lead.length ↔
      read (spelled l.text ++ glyphs rest) = .closed l.glyphed (glyphs rest) := by
  have ahead : glyphs ((lead ++ (l.text.bytes ++ rest)).drop lead.length) =
      spelled l.text ++ glyphs rest := by
    rw [List.drop_left, glyphs_append, spelled]
  have marksSize := length_of_ascii (ascii_of_isMarks marks)
  have quoteSize := length_of_ascii (ascii_delimiter l.quote)
  constructor
  · rintro ⟨e, scanned, quote, content, -⟩
    rw [scan, ahead] at scanned
    cases read : Literal.read (spelled l.text ++ glyphs rest) with
    | unclosed => rw [read] at scanned; cases scanned
    | closed u w =>
      rw [read] at scanned
      cases scanned
      obtain ⟨sound, -, whole⟩ := read_eq_closed_iff.1 read
      have same : u.text ++ w = l.glyphed.text ++ glyphs rest := by rw [← whole, text_glyphed marks]
      have first := congrArg Span.start content
      have last := congrArg Span.stop content
      dsimp only at quote first last
      have length : u.body.length = l.glyphed.body.length := by
        rw [glyphed, length_spelled]
        omega
      obtain ⟨rfl, rfl⟩ := eq_of_found same sound.marks marks quote length
      rfl
  · intro read
    refine ⟨_, by rw [scan, ahead, read], rfl, ?_, ?_⟩
    · simp only [glyphed, Text.size_append, length_spelled, marksSize, quoteSize, Nat.add_assoc]
    · simp only [glyphed, Text.size_append, length_spelled, marksSize, quoteSize, Nat.add_assoc]

/-- Whatever stands before and behind a literal, and whatever its marks are: a scan from its first
byte finds it whole exactly when its body fits between its delimiters. Only where the delimiters of
an empty literal are joined with a quote behind them it does not, although the empty body fits. -/
theorem fits_iff_foundWhole (marks : isMarks l.marks = true) (lead rest : List UInt8) :
    (¬ l.Joined rest →
      (l.quote.fits l.body = true ↔ l.FoundWhole (lead ++ (l.text.bytes ++ rest)) lead.length)) ∧
    (l.Joined rest → l.quote.fits l.body = true ∧
      ¬ l.FoundWhole (lead ++ (l.text.bytes ++ rest)) lead.length) := by
  rw [found_iff_read marks, read_glyphed_iff marks]
  refine ⟨fun apart => ?_, fun joined => ?_⟩
  · simp only [apart, not_false_eq_true, and_true]
  · refine ⟨?_, fun found => found.2 joined⟩
    rw [joined.empty, Quote.fits_iff]
    exact .nil

/-- A body that ends with an escaped quote. -/
def quoted : Literal := ⟨['r', 'F'], .tripleDouble, "say \"hi\\\"".toList⟩

/-- It is found whole in a call, although more quotes follow its delimiter. -/
theorem fits_iff_foundWhole_quoted :
    isMarks quoted.marks = true ∧
      quoted.FoundWhole
        (Text.bytes "sql(".toList ++ (quoted.text.bytes ++ Text.bytes "\"\")".toList)) 4 := by
  have marks : isMarks quoted.marks = true := by decide
  have apart : ¬ quoted.Joined (Text.bytes "\"\")".toList) := fun joined => by cases joined.plain
  have fits : quoted.quote.fits quoted.body = true := by decide
  exact ⟨marks, ((fits_iff_foundWhole marks (Text.bytes "sql(".toList) _).1 apart).1 fits⟩

end HostSql.Literal
