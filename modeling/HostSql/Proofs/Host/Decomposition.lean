import HostSql.Proofs.Host.Bytes

/-! What a scan over bytes finds. There is a literal exactly where the bytes fall into marks, a
delimiter, a body read unit by unit, the same delimiter, and a rest, and they do so in one way only.
Where they do not, the scan goes on at the first line break that nothing escapes, at the end of the
bytes, or behind the first byte. -/
namespace HostSql

namespace Quote

def byte : Quote → UInt8
  | single | tripleSingle => 39
  | double | tripleDouble => 34

def delimiterBytes (q : Quote) : List UInt8 := List.replicate (if q.isTriple then 3 else 1) q.byte

end Quote

namespace Literal

/-- Marks and a delimiter at the front of bytes, with `v` behind them. The delimiter is the triple one
where three equal quotes follow the marks. -/
structure Opens (u marks : List UInt8) (q : Quote) (v : List UInt8) : Prop where
  whole : u = marks ++ (q.delimiterBytes ++ v)
  marks : isMarks (glyphs marks) = true
  triple : q.isTriple = true ↔ [q.byte, q.byte, q.byte] <+: q.delimiterBytes ++ v

/-- Bodies of literals with the given bytes behind them: a backslash with any byte after it, or a byte
that is no backslash and at which no delimiter stands, nor a line break if the delimiter is a plain
one. -/
inductive Units (q : Quote) (behind : List UInt8) : List UInt8 → Prop
  | nil : Units q behind []
  | escaped (e : UInt8) {body : List UInt8} (more : Units q behind body) :
      Units q behind (92 :: e :: body)
  | byte {b : UInt8} {body : List UInt8} (escape : b ≠ 92) (line : q.isTriple = false → b ≠ 10)
      (goesOn : ¬ q.delimiterBytes <+: b :: (body ++ behind)) (more : Units q behind body) :
      Units q behind (b :: body)

/-- Bytes in which no line break stands that is not escaped. -/
inductive Line : List UInt8 → Prop
  | nil : Line []
  | escaped (e : UInt8) {u : List UInt8} (more : Line u) : Line (92 :: e :: u)
  | byte {b : UInt8} {u : List UInt8} (escape : b ≠ 92) (line : b ≠ 10) (more : Line u) :
      Line (b :: u)

/-- Bytes that begin with a literal. -/
structure Parts where
  marks : List UInt8
  quote : Quote
  body : List UInt8
  rest : List UInt8

namespace Parts

def bytes (p : Parts) : List UInt8 :=
  p.marks ++ (p.quote.delimiterBytes ++ (p.body ++ (p.quote.delimiterBytes ++ p.rest)))

structure Valid (p : Parts) : Prop where
  opens : Opens p.bytes p.marks p.quote (p.body ++ (p.quote.delimiterBytes ++ p.rest))
  units : Units p.quote (p.quote.delimiterBytes ++ p.rest) p.body

/-- Where the parts of the literal lie if its first byte has number `start`. -/
def extent (start : Nat) (p : Parts) : Extent :=
  let first := start + p.marks.length + p.quote.delimiterBytes.length
  let last := first + p.body.length
  { start
    content := ⟨first, last⟩
    stop := last + p.quote.delimiterBytes.length
    quote := p.quote
    marksLength := p.marks.length
    interpolated := marksInterpolate (glyphs p.marks) }

def literal (p : Parts) : Literal := ⟨glyphs p.marks, p.quote, glyphs p.body⟩

end Parts

/-- Where a scan goes on that has found no literal. -/
inductive Resumes (bytes : List UInt8) (start : Nat) : Nat → Prop
  | next (none : ∀ marks q v, ¬ Opens (bytes.drop start) marks q v) :
      Resumes bytes start (min (start + 1) bytes.length)
  | line {marks lead z : List UInt8} {q : Quote}
      (opens : Opens (bytes.drop start) marks q (lead ++ 10 :: z)) (plain : q.isTriple = false)
      (line : Line lead) :
      Resumes bytes start (start + marks.length + q.delimiterBytes.length + lead.length)
  | stop {marks v : List UInt8} {q : Quote} (opens : Opens (bytes.drop start) marks q v)
      (none : q.isTriple = false → ∀ lead z, Line lead → v ≠ lead ++ 10 :: z) :
      Resumes bytes start bytes.length

section Glyphs
variable {a b : UInt8} {u v body rest marks : List UInt8} {x y : Text} {q : Quote}

theorem glyph_inj (h : Char.ofNat a.toNat = Char.ofNat b.toNat) : a = b := by
  have same := congrArg Char.toNat h
  rw [toNat_glyph, toNat_glyph] at same
  exact UInt8.toNat_inj.1 same

theorem glyphs_inj (h : glyphs u = glyphs v) : u = v :=
  (List.map_inj_right fun _ _ => glyph_inj).1 h

theorem glyphs_append (u v : List UInt8) : glyphs (u ++ v) = glyphs u ++ glyphs v := List.map_append ..

theorem exists_glyphs (h : glyphs u = x ++ y) : ∃ a b, u = a ++ b ∧ glyphs a = x ∧ glyphs b = y := by
  obtain ⟨a, b, rfl, ha, hb⟩ := List.map_eq_append_iff.1 h
  exact ⟨a, b, rfl, ha, hb⟩

theorem glyphs_delimiter (q : Quote) : glyphs q.delimiterBytes = q.delimiter := by cases q <;> rfl

theorem length_delimiterBytes (q : Quote) : q.delimiterBytes.length = q.delimiter.length := by
  rw [← glyphs_delimiter, glyphs, List.length_map]

theorem strip?_glyphs : Text.strip? (glyphs u) (glyphs v) = none ↔ ¬ u <+: v := by
  rw [Text.strip?_eq_none_iff]
  constructor
  · rintro h ⟨w, rfl⟩
    exact h (glyphs w) (glyphs_append u w)
  · intro h w hw
    obtain ⟨a, b, rfl, ha, -⟩ := exists_glyphs hw
    rw [glyphs_inj ha] at h
    exact h (List.prefix_append u b)

/-- Whether a delimiter stands at a byte of the body is decided before the rest begins. -/
theorem goesOn_iff : Text.strip? q.delimiter (Char.ofNat b.toNat :: (glyphs body ++ q.delimiter)) = none ↔
    ¬ q.delimiterBytes <+: b :: (body ++ (q.delimiterBytes ++ rest)) := by
  have shape : Char.ofNat b.toNat :: (glyphs body ++ q.delimiter) =
      glyphs (b :: (body ++ q.delimiterBytes)) := by
    rw [← glyphs_delimiter, ← glyphs_append]
    rfl
  have longer : b :: (body ++ (q.delimiterBytes ++ rest)) = b :: (body ++ q.delimiterBytes) ++ rest := by
    simp
  rw [shape, ← glyphs_delimiter, strip?_glyphs, longer]
  refine not_congr ⟨fun h => h.trans (List.prefix_append _ _), fun h => ?_⟩
  exact List.prefix_of_prefix_length_le h (List.prefix_append _ _) (by simp; omega)

theorem encloses_glyphs_iff :
    q.Encloses (glyphs body) ↔ Units q (q.delimiterBytes ++ rest) body := by
  constructor
  · intro h
    generalize ht : glyphs body = t at h
    induction h generalizing body with
    | nil =>
      obtain rfl := List.map_eq_nil_iff.1 ht
      exact .nil
    | escaped e more ih =>
      obtain ⟨a, tail, rfl, ha, hu⟩ := List.map_eq_cons_iff.1 ht
      obtain ⟨b, body, rfl, -, hbody⟩ := List.map_eq_cons_iff.1 hu
      obtain rfl : a = 92 := glyph_inj ha
      exact .escaped b (ih hbody)
    | cons escape line goesOn more ih =>
      obtain ⟨a, body, rfl, rfl, rfl⟩ := List.map_eq_cons_iff.1 ht
      refine .byte ?_ ?_ (goesOn_iff.1 goesOn) (ih rfl)
      · rintro rfl
        exact escape rfl
      · rintro plain rfl
        exact line plain rfl
  · intro h
    induction h with
    | nil => exact .nil
    | escaped e more ih => exact .escaped _ ih
    | byte escape line goesOn more ih =>
      refine .cons (fun same => ?_) (fun plain same => ?_) (goesOn_iff.2 goesOn) ih
      · exact escape (glyph_inj same)
      · exact line plain (glyph_inj same)

end Glyphs

section Opened
variable {u v w marks marks' lead z : List UInt8} {q q' : Quote} {l : Literal} {t : Text} {p p' : Parts}

/-- Behind a plain delimiter no two more quotes follow. -/
theorem opens_iff : Opens u marks q v ↔
    u = marks ++ (q.delimiterBytes ++ v) ∧ isMarks (glyphs marks) = true ∧
      (q.isTriple = false → ∀ w, glyphs v ≠ q.char :: q.char :: w) := by
  constructor
  · rintro ⟨whole, marked, triple⟩
    refine ⟨whole, marked, fun plain w hw => ?_⟩
    obtain ⟨a, b, rfl, ha, -⟩ := exists_glyphs (x := [q.char, q.char]) hw
    have two : a = [q.byte, q.byte] := by
      apply glyphs_inj
      rw [ha]
      cases q <;> rfl
    have three : [q.byte, q.byte, q.byte] <+: q.delimiterBytes ++ (a ++ b) := by
      rw [two, Quote.delimiterBytes, plain]
      exact ⟨b, rfl⟩
    rw [triple.2 three] at plain
    cases plain
  · rintro ⟨whole, marked, apart⟩
    refine ⟨whole, marked, fun triple => ?_, fun ⟨w, hw⟩ => ?_⟩
    · rw [Quote.delimiterBytes, triple]
      exact List.prefix_append _ _
    · cases plain : q.isTriple with
      | true => rfl
      | false =>
        rw [Quote.delimiterBytes, plain] at hw
        obtain rfl := (List.cons.inj hw).2
        exact absurd (by cases q <;> rfl) (apart plain (glyphs w))

/-- Where marks and a delimiter open a literal, it is read up to where the delimiter closes it. -/
theorem read_glyphs_opened (h : Opens u marks q v) :
    read (glyphs u) =
      match close q (glyphs v) with
      | .ok (body, rest) => .closed ⟨glyphs marks, q, body⟩ rest
      | .error rest => .unclosed rest := by
  obtain ⟨rfl, marked, apart⟩ := opens_iff.1 h
  rw [glyphs_append, glyphs_append, glyphs_delimiter]
  exact read_opened marked apart

theorem exists_opens {m : Text} (h : marks? (glyphs u) = some m) : ∃ marks q v, Opens u marks q v := by
  obtain ⟨marked, q, v, whole, apart⟩ := exists_opened h
  obtain ⟨marks, u, rfl, rfl, hu⟩ := exists_glyphs whole
  obtain ⟨d, v, rfl, hd, rfl⟩ := exists_glyphs hu
  obtain rfl : d = q.delimiterBytes := glyphs_inj (hd.trans (glyphs_delimiter q).symm)
  exact ⟨marks, q, v, opens_iff.2 ⟨rfl, marked, apart⟩⟩

theorem Opens.marks? (h : Opens u marks q v) : marks? (glyphs u) = some (glyphs marks) := by
  obtain ⟨rfl, marked, -⟩ := opens_iff.1 h
  obtain ⟨more, hq⟩ := q.delimiter_eq_cons
  refine marks?_eq_some_iff.2 ⟨marked, q.char, more ++ glyphs v, q.isQuote_char, ?_⟩
  rw [glyphs_append, glyphs_append, glyphs_delimiter, hq, List.cons_append]

/-- Bytes open a literal in one way at most. -/
theorem Opens.unique (h : Opens u marks q v) (h' : Opens u marks' q' w) :
    marks = marks' ∧ q = q' ∧ v = w := by
  obtain rfl : marks = marks' := glyphs_inj (Option.some.inj (h.marks?.symm.trans h'.marks?))
  obtain ⟨rfl, -, apart⟩ := opens_iff.1 h
  obtain ⟨whole, -, apart'⟩ := opens_iff.1 h'
  have behind := List.append_cancel_left whole
  have opening {q : Quote} {v : List UInt8} (apart : q.isTriple = false → ∀ w, glyphs v ≠ q.char :: q.char :: w) :
      Quote.opening? (glyphs (q.delimiterBytes ++ v)) = some q :=
    opening?_eq_some_iff.2 ⟨glyphs v, by rw [glyphs_append, glyphs_delimiter], apart⟩
  have here := opening apart
  rw [behind, opening apart'] at here
  obtain rfl := Option.some.inj here
  exact ⟨rfl, rfl, List.append_cancel_left behind⟩

/-- Reading a literal off the characters finds the parts of the bytes. -/
theorem read_glyphs_closed_iff :
    read (glyphs u) = .closed l t ↔
      ∃ p : Parts, p.Valid ∧ p.bytes = u ∧ p.literal = l ∧ glyphs p.rest = t := by
  constructor
  · intro h
    cases hm : marks? (glyphs u) with
    | none =>
      rw [read, hm] at h
      cases h
    | some m =>
    obtain ⟨marks, q, v, opens⟩ := exists_opens hm
    rw [read_glyphs_opened opens] at h
    split at h
    · next body rest closed =>
      cases h
      obtain ⟨encloses, whole⟩ := close_eq_ok_iff.1 closed
      obtain ⟨body, v, rfl, rfl, hv⟩ := exists_glyphs whole
      obtain ⟨d, rest, rfl, hd, rfl⟩ := exists_glyphs hv
      obtain rfl : d = q.delimiterBytes := glyphs_inj (hd.trans (glyphs_delimiter q).symm)
      obtain rfl := opens.whole
      exact ⟨⟨marks, q, body, rest⟩, ⟨opens, encloses_glyphs_iff.1 encloses⟩, rfl, rfl, rfl⟩
    · cases h
  · rintro ⟨p, ⟨opens, units⟩, rfl, rfl, rfl⟩
    have closed := close_complete (encloses_glyphs_iff.2 units) (glyphs p.rest)
    rw [read_glyphs_opened opens, glyphs_append, glyphs_append, glyphs_delimiter, closed]
    rfl

/-- Bytes fall into the parts of a literal in one way at most. -/
theorem Parts.Valid.unique (h : p.Valid) (h' : p'.Valid) (same : p.bytes = p'.bytes) : p = p' := by
  have here := read_glyphs_closed_iff.2 ⟨p, h, rfl, rfl, rfl⟩
  have there := read_glyphs_closed_iff.2 ⟨p', h', same.symm, rfl, rfl⟩
  rw [here] at there
  injection there with literal rest
  injection literal with marks quote body
  cases p
  cases p'
  cases glyphs_inj marks
  cases quote
  cases glyphs_inj body
  cases glyphs_inj rest
  rfl

end Opened

section Unclosed
variable {bytes u v marks lead lead' z z' : List UInt8} {q : Quote} {t rest : Text} {start r r' : Nat}

theorem line_of_leaves (h : q.Leaves (glyphs lead)) : Line lead := by
  generalize ht : glyphs lead = t at h
  induction h generalizing lead with
  | nil =>
    obtain rfl := List.map_eq_nil_iff.1 ht
    exact .nil
  | escaped e more ih =>
    obtain ⟨a, tail, rfl, ha, hu⟩ := List.map_eq_cons_iff.1 ht
    obtain ⟨b, lead, rfl, -, hlead⟩ := List.map_eq_cons_iff.1 hu
    obtain rfl : a = 92 := glyph_inj ha
    exact .escaped b (ih hlead)
  | cons escape line goesOn more ih =>
    obtain ⟨a, lead, rfl, rfl, rfl⟩ := List.map_eq_cons_iff.1 ht
    refine .byte ?_ ?_ (ih rfl)
    · rintro rfl
      exact escape rfl
    · rintro rfl
      exact line rfl

/-- A line break that is not escaped ends what a plain delimiter opened, unless that was closed
before. -/
theorem close_line (plain : q.isTriple = false) (h : Line lead) (t : Text) :
    close q (glyphs lead ++ '\n' :: t) = .error ('\n' :: t) ∨
      ∃ x, close q (glyphs lead ++ '\n' :: t) = .ok x := by
  induction h with
  | nil =>
    left
    rw [glyphs, List.map_nil, List.nil_append, close_cons (by decide), plain]
    rfl
  | @escaped e lead more ih =>
    have shape : glyphs (92 :: e :: lead) ++ '\n' :: t =
        '\\' :: Char.ofNat e.toNat :: (glyphs lead ++ '\n' :: t) := rfl
    rw [shape, close_escaped]
    rcases ih with ended | ⟨x, closed⟩
    · exact .inl (by rw [ended]; rfl)
    · exact .inr ⟨_, by rw [closed]; rfl⟩
  | @byte b lead escape line more ih =>
    have other : Char.ofNat b.toNat ≠ '\\' := fun same => escape (glyph_inj same)
    have goesOn : ¬(!q.isTriple && Char.ofNat b.toNat == '\n') = true := by
      rw [plain]
      simpa using fun same => line (glyph_inj same)
    have shape : glyphs (b :: lead) ++ '\n' :: t =
        Char.ofNat b.toNat :: (glyphs lead ++ '\n' :: t) := rfl
    rw [shape, close_cons other, if_neg goesOn]
    split
    · exact .inr ⟨_, rfl⟩
    · rcases ih with ended | ⟨x, closed⟩
      · exact .inl (by rw [ended]; rfl)
      · exact .inr ⟨_, by rw [closed]; rfl⟩

theorem Line.unique (h : Line lead) (h' : Line lead') (same : lead ++ 10 :: z = lead' ++ 10 :: z') :
    lead = lead' := by
  induction h generalizing lead' with
  | nil =>
    cases h' with
    | nil => rfl
    | escaped => cases same
    | byte _ line => exact absurd (List.cons.inj same).1.symm line
  | escaped e more ih =>
    cases h' with
    | nil => cases same
    | escaped e' more' =>
      simp only [List.cons_append, List.cons.injEq, true_and] at same
      rw [same.1, ih more' same.2]
    | byte escape => exact absurd (List.cons.inj same).1.symm escape
  | byte escape line more ih =>
    cases h' with
    | nil => exact absurd (List.cons.inj same).1 line
    | escaped => exact absurd (List.cons.inj same).1 escape
    | byte _ _ more' =>
      obtain ⟨rfl, rest⟩ := List.cons.inj same
      rw [ih more' rest]

theorem Resumes.unique (h : Resumes bytes start r) (h' : Resumes bytes start r') : r = r' := by
  cases h with
  | next none =>
    cases h' with
    | next => rfl
    | line opens => exact absurd opens (none _ _ _)
    | stop opens => exact absurd opens (none _ _ _)
  | line opens plain line =>
    cases h' with
    | next none => exact absurd opens (none _ _ _)
    | line opens' _ line' =>
      obtain ⟨rfl, rfl, same⟩ := opens.unique opens'
      rw [line.unique line' same]
    | stop opens' none =>
      obtain ⟨rfl, rfl, rfl⟩ := opens.unique opens'
      exact absurd rfl (none plain _ _ line)
  | stop opens none =>
    cases h' with
    | next none' => exact absurd opens (none' _ _ _)
    | line opens' plain line =>
      obtain ⟨rfl, rfl, rfl⟩ := opens.unique opens'
      exact absurd rfl (none plain _ _ line)
    | stop => rfl

/-- Where reading goes on is where a scan does. -/
theorem resumes_of_unclosed (h : read (glyphs (bytes.drop start)) = .unclosed rest) :
    Resumes bytes start (bytes.length - rest.length) := by
  have size : (bytes.drop start).length = bytes.length - start := List.length_drop
  cases hm : marks? (glyphs (bytes.drop start)) with
  | none =>
    rw [read, hm] at h
    cases h
    have last : bytes.length - ((glyphs (bytes.drop start)).drop 1).length =
        min (start + 1) bytes.length := by
      rw [List.length_drop, glyphs, List.length_map, size]
      omega
    rw [last]
    refine .next fun marks q v opens => ?_
    rw [opens.marks?] at hm
    cases hm
  | some m =>
    obtain ⟨marks, q, v, opens⟩ := exists_opens hm
    rw [read_glyphs_opened opens] at h
    split at h
    · cases h
    next rest ended =>
    cases h
    rcases close_error ended with rfl | ⟨plain, lead, z, leaves, rfl, whole⟩
    · refine .stop opens fun plain lead z line hv => ?_
      rw [hv, glyphs_append] at ended
      rcases close_line plain line (glyphs z) with other | ⟨x, closed⟩
      · cases ended.symm.trans other
      · cases ended.symm.trans closed
    · obtain ⟨lead, v, rfl, rfl, hv⟩ := exists_glyphs whole
      obtain ⟨b, z, rfl, hb, rfl⟩ := List.map_eq_cons_iff.1 hv
      obtain rfl : b = 10 := glyph_inj hb
      have at' := congrArg List.length opens.whole
      simp only [List.length_append, List.length_cons] at at'
      have place : bytes.length - ('\n' :: z.map fun b => Char.ofNat b.toNat).length =
          start + marks.length + q.delimiterBytes.length + lead.length := by
        rw [List.length_cons, List.length_map]
        omega
      rw [place]
      exact .line opens plain (line_of_leaves leaves)

end Unclosed

section Scan
variable {bytes : List UInt8} {start : Nat} {e : Extent} {p : Parts}

theorem scan_of_valid (h : p.Valid) (whole : p.bytes = bytes.drop start) :
    scan bytes start = .terminated (p.extent start) := by
  have closed := read_glyphs_closed_iff.2 ⟨p, h, whole, rfl, rfl⟩
  rw [scan, closed]
  simp only [Parts.literal, Parts.extent, length_delimiterBytes, glyphs, List.length_map]

theorem exists_valid_of_scan (h : scan bytes start = .terminated e) :
    ∃ p : Parts, p.Valid ∧ p.bytes = bytes.drop start ∧ p.extent start = e := by
  cases hr : read (glyphs (bytes.drop start)) with
  | unclosed rest =>
    rw [scan, hr] at h
    cases h
  | closed l t =>
    obtain ⟨p, valid, whole, -⟩ := read_glyphs_closed_iff.1 hr
    have same := scan_of_valid valid whole
    rw [h] at same
    exact ⟨p, valid, whole, (Scan.terminated.inj same).symm⟩

theorem resumes_of_scan {r : Nat} (h : scan bytes start = .unterminated r) : Resumes bytes start r := by
  cases hr : read (glyphs (bytes.drop start)) with
  | closed =>
    rw [scan, hr] at h
    cases h
  | unclosed rest =>
    rw [scan, hr] at h
    cases h
    exact resumes_of_unclosed hr

theorem Parts.extent_bounds (whole : p.bytes = bytes.drop start) :
    start < (p.extent start).stop ∧ (p.extent start).stop ≤ bytes.length := by
  have some : 0 < p.quote.delimiterBytes.length := by cases p.quote <;> decide
  have size := congrArg List.length whole
  simp only [Parts.bytes, List.length_append, List.length_drop] at size
  dsimp only [Parts.extent]
  omega

theorem Resumes.bounds {r : Nat} (h : Resumes bytes start r) :
    (start < bytes.length → start < r) ∧ r ≤ bytes.length := by
  cases h with
  | next => omega
  | stop => exact ⟨id, Nat.le_refl _⟩
  | @line marks lead z q opens _ _ =>
    have some : 0 < q.delimiterBytes.length := by cases q <;> decide
    have size := congrArg List.length opens.whole
    simp only [List.length_append, List.length_cons, List.length_drop] at size
    omega

/-- For every byte string and every place in it or behind it: a scan finds a literal exactly when the
bytes from there fall into the parts of one, which they do in one way only, and it answers where
these parts lie. Otherwise it goes on where `Resumes` says. From a place inside it moves on, and it
never leaves the bytes. -/
theorem scan_decomposes (bytes : List UInt8) (start : Nat) :
    (∀ e, scan bytes start = .terminated e ↔
      ∃ p : Parts, p.Valid ∧ p.bytes = bytes.drop start ∧ p.extent start = e) ∧
    (∀ p p' : Parts, p.Valid → p'.Valid → p.bytes = bytes.drop start → p'.bytes = bytes.drop start →
      p = p') ∧
    (∀ r, scan bytes start = .unterminated r ↔
      (∀ p : Parts, p.Valid → p.bytes ≠ bytes.drop start) ∧ Resumes bytes start r) ∧
    (start < bytes.length → start < (scan bytes start).stop) ∧
    (scan bytes start).stop ≤ bytes.length := by
  refine ⟨fun e => ⟨exists_valid_of_scan, ?_⟩, ?_, fun r => ⟨fun h => ⟨?_, resumes_of_scan h⟩, ?_⟩, ?_⟩
  · rintro ⟨p, valid, whole, rfl⟩
    exact scan_of_valid valid whole
  · intro p p' valid valid' whole whole'
    exact valid.unique valid' (whole.trans whole'.symm)
  · intro p valid whole
    rw [scan_of_valid valid whole] at h
    cases h
  · rintro ⟨none, resumes⟩
    cases hs : scan bytes start with
    | terminated e =>
      obtain ⟨p, valid, whole, -⟩ := exists_valid_of_scan hs
      exact absurd whole (none p valid)
    | unterminated r' => rw [resumes.unique (resumes_of_scan hs)]
  · cases hs : scan bytes start with
    | terminated e =>
      obtain ⟨p, -, whole, rfl⟩ := exists_valid_of_scan hs
      obtain ⟨after, inside⟩ := Parts.extent_bounds whole
      exact ⟨fun _ => after, inside⟩
    | unterminated r => exact (resumes_of_scan hs).bounds

end Scan

end Literal
end HostSql
