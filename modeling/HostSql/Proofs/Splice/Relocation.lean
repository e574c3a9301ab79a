import HostSql.Proofs.Replacement
import HostSql.Proofs.Splice.Located
import Mathlib.Algebra.Ring.Int.Defs

/-! After its fragments have been replaced a buffer holds the same fragments, moved by what those
before them have grown, and the check of the outcome accepts it. -/
namespace HostSql.Splice

/-- By how many bytes the texts in place of some fragments are longer than the fragments. -/
def growth (put : Fragment → Text) (fs : List Fragment) : Int :=
  (fs.map fun f => ((put f).size : Int) - f.span.length).sum

section
variable {put : Fragment → Text} {n n' : Nat} {u v t t' : Text} {f f' : Fragment}
  {fs fs' : List Fragment}

theorem weave_of_moved (h : Moved put u.size t fs n' t' fs') :
    weave put (u ++ t) u.size fs = t' := by
  generalize hn : u.size = n at h
  induction h generalizing u with
  | rest n n' t => rw [weave, ← hn, Text.after_size]
  | @next n n' t t' f f' fs fs' gap span _ _ _ _ ih =>
    subst hn
    have behind : (u ++ gap ++ f.text).size = u.size + gap.size + f.text.size := by
      simp [Nat.add_assoc]
    rw [weave_next put span, behind, ih behind]

theorem length_of_moved (h : Moved put n t fs n' t' fs') : fs'.length = fs.length := by
  induction h with
  | rest => rfl
  | next _ _ _ _ _ _ ih => simp [ih]

theorem countCalls_of_moved (h : Moved put n t fs n' t' fs') : countCalls fs' = countCalls fs := by
  unfold countCalls
  induction h with
  | rest => rfl
  | next _ _ _ same _ _ ih => rw [List.countP_cons, List.countP_cons, ih, same.1]

/-- A fragment at its place in both buffers. -/
structure Relocated (put : Fragment → Text) (buffer : Text) (f : Fragment) (shift : Int)
    (buffer' : Text) (f' : Fragment) : Prop where
  kind : f'.kind = f.kind
  marks : f'.marks = f.marks
  interpolated : f'.interpolated = f.interpolated
  start : (f'.span.start : Int) = f.span.start + shift
  stop : f'.span.stop = f'.span.start + (put f).size
  own : buffer.slice f.span = f.text
  text : buffer'.slice f'.span = put f
  reads : f'.text = put f

theorem relocated_of_moved (h : Moved put u.size t fs v.size t' fs') (k : Nat) (hf : fs[k]? = some f)
    (hf' : fs'[k]? = some f') :
    Relocated put (u ++ t) f ((v.size : Int) - u.size + growth put (fs.take k)) (v ++ t') f' := by
  generalize hn : u.size = n at h
  generalize hn' : v.size = n' at h
  induction h generalizing u v k with
  | rest => cases hf
  | @next n n' t t' e e' fs fs' gap span span' same text more ih =>
    subst hn hn'
    cases k with
    | zero =>
      cases hf
      cases hf'
      refine ⟨same.1, same.2.1, same.2.2, ?_, ?_, slice_placed span, slice_placed span', text⟩
      · simp only [span, span', List.take_zero, growth, List.map_nil, List.sum_nil]
        omega
      · rw [span']
    | succ k =>
      have behind : (u ++ gap ++ e.text).size = u.size + gap.size + e.text.size := by
        simp [Nat.add_assoc]
      have behind' : (v ++ gap ++ put e).size = v.size + gap.size + (put e).size := by
        simp [Nat.add_assoc]
      have rest := ih k hf hf' behind behind'
      have grown : growth put ((e :: fs).take (k + 1)) =
          ((put e).size : Int) - e.text.size + growth put (fs.take k) := by
        have width : e.span.length = e.text.size := by
          simp only [span, Span.length]
          omega
        simp [growth, width]
      have whole (x y z w : Text) : x ++ (y ++ (z ++ w)) = x ++ y ++ z ++ w := by simp
      rw [whole, whole, grown]
      have moved : ((v.size + gap.size + (put e).size : Nat) : Int) -
            (u.size + gap.size + e.text.size : Nat) + growth put (fs.take k) =
          v.size - u.size + (((put e).size : Int) - e.text.size + growth put (fs.take k)) := by
        omega
      rwa [moved] at rest

end

section
variable {format : Formatter} {c : Config} {buffer : Text}

/-- Whatever stands for a fragment in the end fits its place. -/
theorem fits_standing {f : Fragment}
    (hf : f ∈ (Locator.ofConfig c).locate buffer)
    (block : f.kind = .block → ∀ new, replacement format c buffer f = .ok new →
      new ≠ [] ∧ ∀ line ∈ new.lines, line.trim ≠ (Locator.ofConfig c).marker) :
    Fits (Locator.ofConfig c) f (standing format c buffer f) := by
  have fills : Fills f (standing format c buffer f) := fills_standing hf
  unfold standing at *
  cases hr : replacement format c buffer f with
  | error =>
    dsimp only
    rw [slice_located hf]
    exact .own
  | ok new =>
    rw [hr] at fills
    dsimp only at *
    cases fills with
    | own => exact .own
    | literal kind encloses => exact .literal kind encloses
    | lines kind filled ends =>
      refine .lines kind (fun y hy => ?_) ends
      simp [Locator.continuesBlock, Locator.isMarkerLine, filled y hy, (block kind new hr).2 y hy]
    | nothing kind => exact absurd rfl (block kind _ hr).1

/-- The processed buffer holds the fragments moved, and the check of the outcome accepts it. -/
theorem exists_moved_spliced (plain : (Locator.ofConfig c).Plain)
    (blocks : ∀ f ∈ (Locator.ofConfig c).locate buffer, f.kind = .block →
      ∀ new, replacement format c buffer f = .ok new →
        new ≠ [] ∧ ∀ line ∈ new.lines, line.trim ≠ (Locator.ofConfig c).marker) :
    ∃ s, splice format c buffer ((Locator.ofConfig c).locate buffer) = .ok s ∧
      s.text = weave (standing format c buffer) buffer 0 ((Locator.ofConfig c).locate buffer) ∧
      s.replaced = ((Locator.ofConfig c).locate buffer).countP (isReplaced format c buffer) ∧
      Moved (standing format c buffer) 0 buffer ((Locator.ofConfig c).locate buffer)
        0 s.text ((Locator.ofConfig c).locate s.text) ∧
      verify c ((Locator.ofConfig c).locate buffer) s.text = .ok () := by
  obtain ⟨t', moved⟩ := exists_moved plain fun f hf => fits_standing hf (blocks f hf)
  have woven : weave (standing format c buffer) buffer 0 ((Locator.ofConfig c).locate buffer) = t' :=
    weave_of_moved (u := []) moved
  refine ⟨_, splice_of_placed format c (fault?_locate _ buffer), rfl, rfl, ?_, ?_⟩
  · rwa [woven]
  · rw [woven, verify, countCalls_of_moved moved]
    simp

/-- Where names and markers are plain and no block comes out empty or with a marker among its lines,
the fragments of the processed buffer are those of the buffer. Each has its kind and its marks, it
has moved by what the fragments before it have grown, and it covers what now stands for it. -/
theorem locate_spliced (plain : (Locator.ofConfig c).Plain)
    (blocks : ∀ f ∈ (Locator.ofConfig c).locate buffer, f.kind = .block →
      ∀ new, replacement format c buffer f = .ok new →
        new ≠ [] ∧ ∀ line ∈ new.lines, line.trim ≠ (Locator.ofConfig c).marker) :
    ∃ s, splice format c buffer ((Locator.ofConfig c).locate buffer) = .ok s ∧
      ((Locator.ofConfig c).locate s.text).length = ((Locator.ofConfig c).locate buffer).length ∧
      (∀ k f f', ((Locator.ofConfig c).locate buffer)[k]? = some f →
        ((Locator.ofConfig c).locate s.text)[k]? = some f' →
        Relocated (standing format c buffer) buffer f
          (growth (standing format c buffer) (((Locator.ofConfig c).locate buffer).take k))
          s.text f') ∧
      verify c ((Locator.ofConfig c).locate buffer) s.text = .ok () := by
  obtain ⟨s, spliced, -, -, moved, verified⟩ := exists_moved_spliced plain blocks
  refine ⟨s, spliced, length_of_moved moved, fun k f f' hf hf' => ?_, verified⟩
  simpa using relocated_of_moved (u := []) (v := []) moved k hf hf'

end

/-- A block of lines and a call behind it. -/
def script : Text := "%%sql\nselect 1 from t\n\nx = sql(\"select a\")\n".toList

/-- The block comes out on two lines and the call in upper case, and both are found again. -/
theorem locate_spliced_script :
    (Locator.ofConfig {}).Plain ∧
      ∃ s, splice Formatter.clauses {} script ((Locator.ofConfig {}).locate script) = .ok s ∧
        ((Locator.ofConfig {}).locate s.text).length = 2 ∧
        verify {} ((Locator.ofConfig {}).locate script) s.text = .ok () := by
  have names : Locator.ofConfig {} = ⟨"sql".toList, "%%sql".toList⟩ := by decide
  have located : (Locator.ofConfig {}).locate script =
      [.ofBlock 6 "select 1 from t".toList, .ofLiteral 31 ⟨[], .double, "select a".toList⟩] := by
    with_unfolding_all decide
  have replaced : replacement Formatter.clauses {} script (.ofBlock 6 "select 1 from t".toList) =
      .ok "SELECT 1\nFROM t".toList := by with_unfolding_all decide
  have plain : (Locator.ofConfig {}).Plain := by
    rw [names]
    constructor <;> simp [isQuote]
  have blocks : ∀ f ∈ (Locator.ofConfig {}).locate script, f.kind = .block →
      ∀ new, replacement Formatter.clauses {} script f = .ok new →
        new ≠ [] ∧ ∀ line ∈ new.lines, line.trim ≠ (Locator.ofConfig {}).marker := by
    rw [located]
    intro f hf kind new hnew
    rcases List.mem_cons.1 hf with rfl | hf
    · rw [replaced] at hnew
      cases hnew
      rw [names]
      decide
    · cases List.mem_singleton.1 hf
      cases kind
  obtain ⟨s, spliced, same, -, verified⟩ := locate_spliced plain blocks
  refine ⟨plain, s, spliced, ?_, verified⟩
  rw [same, located]
  rfl

end HostSql.Splice
