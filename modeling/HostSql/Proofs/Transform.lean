import HostSql.Proofs.Splice.Change
import HostSql.Proofs.Splice.Relocation
import HostSql.Transform

/-! What a pass makes of a buffer: every fragment has what stands for it in its place, and a pass that
changes nothing is one in which no fragment has a replacement. -/
namespace HostSql
open Splice

section
variable {format : Formatter} {c : Config} {buffer : Text}

theorem not_replaced_iff {f : Fragment} :
    isReplaced format c buffer f = false ↔ ∃ e, replacement format c buffer f = .error e := by
  unfold isReplaced
  cases replacement format c buffer f <;> simp [Except.isOk, Except.toBool]

/-- A pass gives the buffer back, or puts in replacements that stand the test. -/
theorem transform_cases (format : Formatter) (c : Config) (buffer : Text) :
    (∃ n, transform format c buffer = .unchanged buffer n) ∨
      ∃ s, splice format c buffer ((Locator.ofConfig c).locate buffer) = .ok s ∧ s.replaced ≠ 0 ∧
        transform format c buffer =
          { text := s.text, changed := true
            candidates := ((Locator.ofConfig c).locate buffer).length, replaced := s.replaced } := by
  unfold transform
  split
  · exact .inl ⟨_, rfl⟩
  dsimp only
  split
  · exact .inl ⟨_, rfl⟩
  next s spliced =>
  split
  · exact .inl ⟨_, rfl⟩
  next some =>
  split
  · exact .inl ⟨_, rfl⟩
  · exact .inr ⟨s, spliced, some, rfl⟩

theorem unchanged_of_not_changed (h : (transform format c buffer).changed = false) :
    ∃ n, transform format c buffer = .unchanged buffer n := by
  rcases transform_cases format c buffer with same | ⟨s, -, -, whole⟩
  · exact same
  · rw [whole] at h
    cases h

theorem text_of_not_changed (h : (transform format c buffer).changed = false) :
    (transform format c buffer).text = buffer := by
  obtain ⟨n, same⟩ := unchanged_of_not_changed h
  rw [same]
  rfl

theorem replaced_of_not_changed (h : (transform format c buffer).changed = false) :
    (transform format c buffer).replaced = 0 := by
  obtain ⟨n, same⟩ := unchanged_of_not_changed h
  rw [same]
  rfl

theorem trimmed_ofConfig (c : Config) : Trimmed (Locator.ofConfig c) := by
  intro d hd
  have first : (Text.trim c.callName.toList).head? = some d := hd
  have solid := List.head?_dropWhile_not isBlank c.callName.toList
  rw [Text.head?_trim first] at solid
  exact solid

theorem ofConfig_default (name : c.callName = "sql") (marker : c.magicMarker = "%%sql") :
    Locator.ofConfig c = ⟨"sql".toList, "%%sql".toList⟩ := by
  rw [Locator.ofConfig, name, marker]
  decide

theorem plain_default : (⟨"sql".toList, "%%sql".toList⟩ : Locator).Plain := by
  constructor <;> simp [isQuote]

/-- Texts that could stand for the fragments do not add up to the buffer, unless each of them is what
stood there. -/
theorem own_of_weave {put : Fragment → Text}
    (fills : ∀ f ∈ (Locator.ofConfig c).locate buffer, Fills f (put f))
    (same : weave put buffer 0 ((Locator.ofConfig c).locate buffer) = buffer) :
    ∀ f ∈ (Locator.ofConfig c).locate buffer, put f = buffer.slice f.span := by
  intro f located
  have own := own_of_woven (trimmed_ofConfig c) .lineStart [] buffer fills same f located
  rw [own, slice_located located]

/-- So a buffer that comes out as it was has had nothing replaced. -/
theorem replaced_of_same {s : Spliced}
    (spliced : splice format c buffer ((Locator.ofConfig c).locate buffer) = .ok s)
    (same : s.text = buffer) : s.replaced = 0 := by
  rw [splice_of_placed format c (fault?_locate _ buffer)] at spliced
  cases spliced
  dsimp only at same ⊢
  rw [List.countP_eq_zero]
  intro f located
  have own := own_of_weave (fun f hf => fills_standing hf) same f located
  rw [Bool.not_eq_true, not_replaced_iff]
  cases hr : replacement format c buffer f with
  | error e => exact ⟨e, rfl⟩
  | ok new =>
    obtain ⟨-, -, -, -, -, -, -, differs⟩ := replacement_eq_ok_iff.1 hr
    rw [standing, hr] at own
    exact absurd own differs

/-- A pass that reports a change gives another text, whatever the formatter and the names are. -/
theorem text_ne_of_changed (h : (transform format c buffer).changed = true) :
    (transform format c buffer).text ≠ buffer := by
  rcases transform_cases format c buffer with ⟨n, same⟩ | ⟨s, spliced, some, whole⟩
  · rw [same] at h
    cases h
  · rw [whole]
    exact fun same => some (replaced_of_same spliced same)

/-- A pass over a buffer whose fragments can be found again. -/
theorem transform_spec (valid : c.fault? = none) (plain : (Locator.ofConfig c).Plain)
    (blocks : ∀ f ∈ (Locator.ofConfig c).locate buffer, f.kind = .block →
      ∀ new, replacement format c buffer f = .ok new →
        new ≠ [] ∧ ∀ line ∈ new.lines, line.trim ≠ (Locator.ofConfig c).marker) :
    Moved (standing format c buffer) 0 buffer ((Locator.ofConfig c).locate buffer)
        0 (transform format c buffer).text
        ((Locator.ofConfig c).locate (transform format c buffer).text) ∧
      ((transform format c buffer).changed = false ↔
        ∀ f ∈ (Locator.ofConfig c).locate buffer, ∃ e, replacement format c buffer f = .error e) := by
  obtain ⟨s, spliced, text, replaced, moved, verified⟩ := exists_moved_spliced plain blocks
  have pass : transform format c buffer =
      if s.replaced = 0 then .unchanged buffer ((Locator.ofConfig c).locate buffer).length
      else { text := s.text, changed := true
             candidates := ((Locator.ofConfig c).locate buffer).length, replaced := s.replaced } := by
    unfold transform
    rw [valid]
    dsimp only
    rw [if_neg (by simp), spliced]
    dsimp only
    rw [verified]
  have count : s.replaced = 0 ↔
      ∀ f ∈ (Locator.ofConfig c).locate buffer, ∃ e, replacement format c buffer f = .error e := by
    rw [replaced, List.countP_eq_zero]
    simp only [← not_replaced_iff, Bool.not_eq_true]
  have same : (transform format c buffer).text = s.text := by
    rw [pass]
    split
    · next none =>
      have own : ∀ f ∈ (Locator.ofConfig c).locate buffer,
          standing format c buffer f = buffer.slice f.span := fun f hf => by
        obtain ⟨e, he⟩ := count.1 none f hf
        rw [standing, he]
      rw [text, weave_congr own]
      exact (weave_own (u := []) (placed_locate _ buffer)).symm
    · rfl
  rw [same]
  refine ⟨moved, ?_⟩
  rw [← count, pass]
  split
  · next none => simp [none, Transformed.unchanged]
  · next some => simp [some]

/-- What a pass that reports a change has counted. -/
theorem counts_of_changed (h : (transform format c buffer).changed = true) :
    1 ≤ (transform format c buffer).replaced ∧
      (transform format c buffer).replaced ≤ (transform format c buffer).candidates ∧
      (transform format c buffer).candidates = ((Locator.ofConfig c).locate buffer).length := by
  rcases transform_cases format c buffer with ⟨n, same⟩ | ⟨s, spliced, some, whole⟩
  · rw [same] at h
    cases h
  · rw [splice_of_placed format c (fault?_locate _ buffer)] at spliced
    cases spliced
    rw [whole]
    exact ⟨Nat.one_le_iff_ne_zero.2 some, List.countP_le_length, rfl⟩

/-- For every buffer, formatter and configuration, valid or not: a pass reports a change exactly when
its text is not the buffer, and its counts agree with that. Texts in place of literals, with other
delimiters and bodies than these have, never add up to the buffer. Where a call has a plain name and
nothing else is found, a valid pass changes the buffer as soon as one fragment has a replacement. -/
theorem transform_tells (format : Formatter) (c : Config) (buffer : Text) :
    ((transform format c buffer).changed = true ↔ (transform format c buffer).text ≠ buffer) ∧
    ((transform format c buffer).changed = false →
      (transform format c buffer).text = buffer ∧ (transform format c buffer).replaced = 0) ∧
    ((transform format c buffer).changed = true →
      1 ≤ (transform format c buffer).replaced ∧
      (transform format c buffer).replaced ≤ (transform format c buffer).candidates ∧
      (transform format c buffer).candidates = ((Locator.ofConfig c).locate buffer).length) ∧
    (∀ put, (∀ f ∈ (Locator.ofConfig c).locate buffer, Fills f (put f)) →
      weave put buffer 0 ((Locator.ofConfig c).locate buffer) = buffer →
        ∀ f ∈ (Locator.ofConfig c).locate buffer, put f = buffer.slice f.span) ∧
    (c.fault? = none → (Locator.ofConfig c).Plain →
      (∀ f ∈ (Locator.ofConfig c).locate buffer, f.kind = .call) →
        ((transform format c buffer).changed = true ↔
          ∃ f ∈ (Locator.ofConfig c).locate buffer, ∃ new,
            replacement format c buffer f = .ok new)) := by
  refine ⟨⟨text_ne_of_changed, fun differs => ?_⟩, fun quiet => ?_, counts_of_changed,
    fun put => own_of_weave, fun valid plain calls => ?_⟩
  · by_contra quiet
    exact differs (text_of_not_changed (Bool.not_eq_true _ ▸ quiet))
  · exact ⟨text_of_not_changed quiet, replaced_of_not_changed quiet⟩
  · have blocks : ∀ f ∈ (Locator.ofConfig c).locate buffer, f.kind = .block →
        ∀ new, replacement format c buffer f = .ok new →
          new ≠ [] ∧ ∀ line ∈ new.lines, line.trim ≠ (Locator.ofConfig c).marker := by
      intro f located block
      rw [calls f located] at block
      cases block
    obtain ⟨-, still⟩ := transform_spec valid plain blocks
    rw [← Bool.not_eq_false, still]
    push Not
    refine exists_congr fun f => and_congr_right fun _ => ?_
    cases replacement format c buffer f <;> simp

end

/-- Two calls on a line, the second one with nothing to format. -/
def paired : Text := "f(sql(\"a from t\"), sql('b'))\n".toList

/-- The replacement of the first call changes the buffer. -/
theorem transform_tells_paired :
    (transform Formatter.clauses {} paired).text ≠ paired ∧
      1 ≤ (transform Formatter.clauses {} paired).replaced ∧
      (transform Formatter.clauses {} paired).candidates = 2 := by
  have valid : ({} : Config).fault? = none := by decide
  have located : (Locator.ofConfig {}).locate paired =
      [.ofLiteral 6 ⟨[], .double, "a from t".toList⟩, .ofLiteral 23 ⟨[], .single, "b".toList⟩] := by
    with_unfolding_all decide
  have replaced : replacement Formatter.clauses {} paired
      (.ofLiteral 6 ⟨[], .double, "a from t".toList⟩) =
        .ok "\"\"\"\n    a\n    FROM t\n\"\"\"".toList := by with_unfolding_all decide
  have calls : ∀ f ∈ (Locator.ofConfig {}).locate paired, f.kind = .call := by
    rw [located]
    simp [Fragment.ofLiteral]
  have plain : (Locator.ofConfig {}).Plain := by
    rw [ofConfig_default rfl rfl]
    exact plain_default
  obtain ⟨differs, -, counts, -, changes⟩ := transform_tells Formatter.clauses {} paired
  have changed := (changes valid plain calls).2
    ⟨_, by rw [located]; exact List.mem_cons_self, _, replaced⟩
  obtain ⟨some, -, number⟩ := counts changed
  exact ⟨differs.1 changed, some, by rw [number, located]; rfl⟩

end HostSql
