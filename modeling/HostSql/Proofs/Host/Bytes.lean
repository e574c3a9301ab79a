import HostSql.Proofs.Host.Literal
import HostSql.Proofs.Text.Cuts

/-! Literals are read off the bytes of an encoded text as they are read off its characters. Quotes,
marks, backslashes and line breaks are ASCII, and in the encoding of any other character no byte
is: wherever reading stops it stops between two characters, also when it has passed two bytes behind
a backslash. -/
namespace HostSql

/-- The bytes of the UTF-8 encoding. -/
def Text.bytes (t : Text) : List UInt8 := t.flatMap String.utf8EncodeChar

/-- The byte at which a scan stops. -/
def Literal.Scan.stop : Literal.Scan → Nat
  | terminated e => e.stop
  | unterminated resume => resume

namespace Literal
variable {c d : Char} {t u v w rest body lead : Text} {q : Quote}

section Spelled

def isAscii (c : Char) : Bool := c.toNat < 128

/-- The characters that stand for the bytes of a text. -/
def spelled (t : Text) : Text := glyphs t.bytes

theorem spelled_append (t u : Text) : spelled (t ++ u) = spelled t ++ spelled u := by
  simp [spelled, glyphs, Text.bytes]

theorem spelled_cons (c : Char) (t : Text) : spelled (c :: t) = spelled [c] ++ spelled t :=
  spelled_append [c] t

theorem length_bytes (t : Text) : t.bytes.length = t.size := by
  induction t with
  | nil => rfl
  | cons c t ih =>
    rw [Text.bytes] at ih ⊢
    rw [List.flatMap_cons, List.length_append, ih, String.length_utf8EncodeChar, Text.size_cons]

theorem length_spelled (t : Text) : (spelled t).length = t.size := by
  rw [spelled, glyphs, List.length_map, length_bytes]

theorem toNat_byte {n : Nat} (h : n < 256) : (UInt8.ofNat n).toNat = n := by
  simpa using h

theorem spelled_ascii (h : isAscii c = true) (t : Text) : spelled (c :: t) = c :: spelled t := by
  have small : c.toNat < 128 := by simpa [isAscii] using h
  have bytes : String.utf8EncodeChar c = [UInt8.ofNat c.toNat] := by
    rw [String.utf8EncodeChar]
    exact if_pos (by simpa using Nat.le_of_lt_succ small)
  have same := toNat_byte (n := c.toNat) (by omega)
  rw [spelled_cons, spelled, glyphs, Text.bytes, List.flatMap_singleton, bytes, List.map_singleton,
    same, Char.ofNat_toNat]
  rfl

theorem high_of_encoded {b : UInt8} (h : isAscii c = false) (hb : b ∈ String.utf8EncodeChar c) :
    128 ≤ b.toNat := by
  have large : ¬ c.val.toNat ≤ 127 := by
    have : 128 ≤ c.val.toNat := by simpa [isAscii] using h
    omega
  have high {n : Nat} (low : 128 ≤ n) (byte : n < 256) : 128 ≤ (UInt8.ofNat n).toNat := by
    rwa [toNat_byte byte]
  simp only [String.utf8EncodeChar, if_neg large] at hb
  split at hb
  · simp only [List.mem_cons, List.not_mem_nil, or_false] at hb
    rcases hb with rfl | rfl <;> apply high <;> omega
  split at hb
  · simp only [List.mem_cons, List.not_mem_nil, or_false] at hb
    rcases hb with rfl | rfl | rfl <;> apply high <;> omega
  · simp only [List.mem_cons, List.not_mem_nil, or_false] at hb
    rcases hb with rfl | rfl | rfl | rfl <;> apply high <;> omega

theorem toNat_glyph (b : UInt8) : (Char.ofNat b.toNat).toNat = b.toNat := by
  have valid : b.toNat.isValidChar := .inl (by have := b.toNat_lt; omega)
  rw [Char.ofNat, dif_pos valid]
  rfl

theorem not_ascii_of_mem (h : isAscii c = false) (hd : d ∈ spelled [c]) : isAscii d = false := by
  simp only [spelled, glyphs, Text.bytes, List.flatMap_singleton, List.mem_map] at hd
  obtain ⟨b, hb, rfl⟩ := hd
  have high := high_of_encoded h hb
  rw [isAscii, toNat_glyph]
  simpa using high

/-- A character is spelled by itself, or by characters none of which is ASCII. -/
theorem spelled_cases (c : Char) (t : Text) :
    (isAscii c = true ∧ spelled (c :: t) = c :: spelled t) ∨
      isAscii c = false ∧ ∃ d w, spelled (c :: t) = d :: (w ++ spelled t) ∧
        ∀ e ∈ d :: w, isAscii e = false := by
  cases h : isAscii c with
  | true => exact .inl ⟨rfl, spelled_ascii h t⟩
  | false =>
    have some : spelled [c] ≠ [] := by
      intro none
      have size := length_spelled [c]
      have := c.utf8Size_pos
      rw [none] at size
      simp only [List.length_nil, Text.size_cons, Text.size_nil] at size
      omega
    obtain ⟨d, w, hw⟩ := List.exists_cons_of_ne_nil some
    refine .inr ⟨rfl, d, w, ?_, fun e he => not_ascii_of_mem h (hw ▸ he)⟩
    rw [spelled_cons, hw, List.cons_append]

theorem spelled_of_ascii (h : ∀ c ∈ u, isAscii c = true) : spelled u = u := by
  induction u with
  | nil => rfl
  | cons c u ih =>
    rw [spelled_ascii (h c List.mem_cons_self), ih fun d hd => h d (List.mem_cons_of_mem _ hd)]

/-- Looking for ASCII text finds it at the front of both or of neither. -/
theorem strip?_spelled (h : ∀ c ∈ lead, isAscii c = true) (t : Text) :
    Text.strip? lead (spelled t) = (Text.strip? lead t).map spelled := by
  induction lead generalizing t with
  | nil => rfl
  | cons a lead ih =>
    obtain ⟨ascii, tail⟩ := List.forall_mem_cons.1 h
    cases t with
    | nil => rfl
    | cons c t =>
      rcases spelled_cases c t with ⟨-, here⟩ | ⟨high, d, w, here, highs⟩
      · rw [here, Text.strip?, Text.strip?]
        split
        · exact ih tail t
        · rfl
      · have apart {e : Char} (he : isAscii e = false) : a ≠ e := by
          rintro rfl
          rw [ascii] at he
          cases he
        rw [here, Text.strip?, Text.strip?, if_neg (apart high),
          if_neg (apart (highs d List.mem_cons_self))]
        rfl

end Spelled

section Close

theorem ascii_delimiter (q : Quote) : ∀ c ∈ q.delimiter, isAscii c = true := by
  rw [← List.all_eq_true]
  cases q <;> decide

theorem ne_of_not_ascii (h : isAscii d = false) (q : Quote) : d ≠ '\\' ∧ d ≠ '\n' ∧ d ≠ q.char := by
  refine ⟨?_, ?_, ?_⟩
  · rintro rfl
    exact absurd h (by decide)
  · rintro rfl
    exact absurd h (by decide)
  · rintro rfl
    cases q <;> exact absurd h (by decide)

theorem strip?_of_not_ascii (h : isAscii d = false) (q : Quote) (t : Text) :
    Text.strip? q.delimiter (d :: t) = none := by
  obtain ⟨more, hq⟩ := q.delimiter_eq_cons
  rw [hq, Text.strip?, if_neg (Ne.symm (ne_of_not_ascii h q).2.2)]

/-- Characters beyond ASCII neither close a literal nor end its line nor escape anything. -/
theorem encloses_pass (h : ∀ d ∈ w, isAscii d = false) (more : q.Encloses body) :
    q.Encloses (w ++ body) := by
  induction w with
  | nil => exact more
  | cons d w ih =>
    obtain ⟨here, there⟩ := List.forall_mem_cons.1 h
    obtain ⟨escape, line, -⟩ := ne_of_not_ascii here q
    exact .cons escape (fun _ => line) (strip?_of_not_ascii here q _) (ih there)

theorem encloses_spelled (h : q.Encloses body) : q.Encloses (spelled body) := by
  induction h with
  | nil => exact .nil
  | @escaped e body more ih =>
    rw [spelled_ascii (by decide)]
    rcases spelled_cases e body with ⟨-, here⟩ | ⟨-, d, w, here, highs⟩
    · rw [here]
      exact .escaped e ih
    · rw [here]
      exact .escaped d (encloses_pass (List.forall_mem_cons.1 highs).2 ih)
  | @cons c body escape line goesOn more ih =>
    rcases spelled_cases c body with ⟨ascii, here⟩ | ⟨-, d, w, here, highs⟩
    · rw [here]
      refine .cons escape line ?_ ih
      have found := strip?_spelled (ascii_delimiter q) (c :: (body ++ q.delimiter))
      rwa [goesOn, spelled_ascii ascii, spelled_append, spelled_of_ascii (ascii_delimiter q)] at found
    · rw [here, ← List.cons_append]
      exact encloses_pass highs ih

theorem close_pass (h : ∀ d ∈ w, isAscii d = false) (he : close q t = .error rest) :
    close q (w ++ t) = .error rest := by
  induction w with
  | nil => exact he
  | cons d w ih =>
    obtain ⟨here, there⟩ := List.forall_mem_cons.1 h
    obtain ⟨escape, line, -⟩ := ne_of_not_ascii here q
    rw [List.cons_append, close_cons escape, if_neg (by simp [line]), strip?_of_not_ascii here,
      ih there]
    rfl

/-- What is left of an unclosed literal. -/
theorem close_spelled (h : close q t = .error rest) : close q (spelled t) = .error (spelled rest) := by
  fun_induction close q t with
  | case1 => cases h; rfl
  | case2 => cases h; rfl
  | case3 e t ih =>
    cases hc : close q t with
    | ok x => rw [hc] at h; cases h
    | error r =>
      rw [hc] at h
      cases h
      rw [spelled_ascii (by decide)]
      rcases spelled_cases e t with ⟨-, here⟩ | ⟨-, d, w, here, highs⟩
      · rw [here, close_escaped, ih hc]
        rfl
      · rw [here, close_escaped, close_pass (List.forall_mem_cons.1 highs).2 (ih hc)]
        rfl
  | case4 c t _ _ line =>
    cases h
    simp only [Bool.and_eq_true, beq_iff_eq] at line
    obtain ⟨plain, rfl⟩ := line
    rw [spelled_ascii (by decide), close_cons (by decide), plain]
    rfl
  | case5 => cases h
  | case6 c t single escaped line hs ih =>
    cases hc : close q t with
    | ok x => rw [hc] at h; cases h
    | error r =>
      rw [hc] at h
      cases h
      have escape : c ≠ '\\' := by
        rintro rfl
        cases t with
        | nil => exact single rfl rfl
        | cons e t => exact escaped e t rfl rfl
      rcases spelled_cases c t with ⟨ascii, here⟩ | ⟨-, d, w, here, highs⟩
      · have found := strip?_spelled (ascii_delimiter q) (c :: t)
        rw [hs, here] at found
        rw [here, close_cons escape, if_neg line, found, ih hc]
        rfl
      · rw [here, ← List.cons_append]
        exact close_pass highs (ih hc)

end Close

section Read
variable {l : Literal} {m : Text}

theorem ascii_of_isMarks (h : isMarks m = true) : ∀ c ∈ m, isAscii c = true := fun _ hc =>
  isMark_elim (by decide) (isMark_of_mem h hc)

theorem head?_spelled (h : isAscii d = true) (hd : (spelled t).head? = some d) : t.head? = some d := by
  cases t with
  | nil => cases hd
  | cons c t =>
    rcases spelled_cases c t with ⟨-, here⟩ | ⟨-, e, w, here, highs⟩
    · rw [here] at hd
      exact hd
    · rw [here] at hd
      cases hd
      rw [highs d List.mem_cons_self] at h
      cases h

/-- The literal with its body spelled. -/
theorem read_spelled_closed (h : read t = .closed l rest) :
    read (spelled t) = .closed ⟨l.marks, l.quote, spelled l.body⟩ (spelled rest) := by
  obtain ⟨sound, apart, rfl⟩ := read_eq_closed_iff.1 h
  refine read_eq_closed_iff.2 ⟨⟨sound.marks, encloses_spelled sound.body⟩, ?_, ?_⟩
  · intro plain empty head
    refine apart plain ?_ (head?_spelled ?_ head)
    · have size := length_spelled l.body
      rw [show spelled l.body = [] from empty] at size
      exact Text.eq_nil_of_size size.symm
    · cases l.quote <;> decide
  · simp only [text, spelled_append, spelled_of_ascii (ascii_of_isMarks sound.marks),
      spelled_of_ascii (ascii_delimiter l.quote)]

theorem read_spelled_unclosed (hm : (marks? t).isSome = true) (h : read t = .unclosed rest) :
    read (spelled t) = .unclosed (spelled rest) := by
  obtain ⟨m, marked⟩ := Option.isSome_iff_exists.1 hm
  obtain ⟨marks, q, v, rfl, apart⟩ := exists_opened marked
  have whole : spelled (m ++ (q.delimiter ++ v)) = m ++ (q.delimiter ++ spelled v) := by
    rw [spelled_append, spelled_append, spelled_of_ascii (ascii_of_isMarks marks),
      spelled_of_ascii (ascii_delimiter q)]
  have apart' : q.isTriple = false → ∀ w, spelled v ≠ q.char :: q.char :: w := by
    intro plain w hw
    have two : ∀ c ∈ [q.char, q.char], isAscii c = true := by
      rw [← List.all_eq_true]
      cases q <;> decide
    have found := strip?_spelled two v
    rw [Text.strip?_eq_some_iff.2 (show spelled v = [q.char, q.char] ++ w from hw)] at found
    obtain ⟨w', hw', -⟩ := Option.map_eq_some_iff.1 found.symm
    exact apart plain w' (Text.strip?_eq_some_iff.1 hw')
  rw [read_opened marks apart] at h
  split at h
  · cases h
  next hc =>
  cases h
  rw [whole, read_opened marks apart', close_spelled hc]

/-- A scan over the bytes of a text from a place where a literal starts stops between two characters:
behind the literal, or where reading goes on. -/
theorem stop_scan (hm : (marks? t).isSome = true) (u : Text) :
    (scan (u ++ t).bytes u.size).stop =
      match read t with
      | .closed l _ => u.size + l.text.size
      | .unclosed rest => u.size + (t.size - rest.size) := by
  have bytes : (u ++ t).bytes = u.bytes ++ t.bytes := List.flatMap_append ..
  have ahead : glyphs ((u ++ t).bytes.drop u.size) = spelled t := by
    rw [bytes, ← length_bytes u, List.drop_left, spelled]
  rw [scan, ahead]
  cases hr : read t with
  | closed l rest =>
    obtain ⟨sound, -, rfl⟩ := read_eq_closed_iff.1 hr
    have sized (x : Text) (ascii : ∀ c ∈ x, isAscii c = true) : x.length = x.size := by
      rw [← length_spelled, spelled_of_ascii ascii]
    rw [read_spelled_closed hr]
    simp only [Scan.stop, text, Text.size_append, length_spelled,
      sized _ (ascii_of_isMarks sound.marks), sized _ (ascii_delimiter l.quote)]
    omega
  | unclosed rest =>
    have shorter : rest.size ≤ t.size := by
      rcases read_unclosed hr with ⟨none, -⟩ | rfl | ⟨lead, z, -, rfl, -⟩
      · rw [none] at hm
        cases hm
      · exact Nat.zero_le _
      · rw [Text.size_append]
        exact Nat.le_add_left _ _
    rw [read_spelled_unclosed hm hr]
    simp only [Scan.stop, length_spelled, bytes, List.length_append, length_bytes]
    omega

end Read
end Literal
end HostSql
