import HostSql.Proofs.Text.Cuts
import HostSql.Splice

/-! Replacements are put in from the last to the first, in place. The outcome is the same as if the
buffer were written once from left to right, each fragment's text between the texts around it. -/
namespace HostSql.Splice

/-- The buffer from byte `n` on, with the text that `put` gives in place of each fragment. -/
def weave (put : Fragment → Text) (buffer : Text) : Nat → List Fragment → Text
  | n, [] => buffer.after n
  | n, f :: fs => buffer.slice ⟨n, f.span.start⟩ ++ (put f ++ weave put buffer f.span.stop fs)

/-- What stands for a fragment in the end: its replacement, worked out against the buffer as it
was, or else the text that it had. -/
def standing (format : Formatter) (c : Config) (buffer : Text) (f : Fragment) : Text :=
  match replacement format c buffer f with
  | .ok new => new
  | .error _ => buffer.slice f.span

def isReplaced (format : Formatter) (c : Config) (buffer : Text) (f : Fragment) : Bool :=
  (replacement format c buffer f).isOk

/-- Fragments with their spans in a text that begins at byte `n`: each stands behind a gap, which
can be empty, and the next one behind it. -/
inductive Placed : Nat → Text → List Fragment → Prop
  | rest (n : Nat) (t : Text) : Placed n t []
  | next {n : Nat} {t : Text} {f : Fragment} {fs : List Fragment} (gap x : Text)
      (span : f.span = ⟨n + gap.size, n + gap.size + x.size⟩)
      (more : Placed (n + gap.size + x.size) t fs) : Placed n (gap ++ (x ++ t)) (f :: fs)

/-- The check of the spans accepts exactly the fragments that are placed in the buffer. -/
theorem fault?_eq_none_iff {u t : Text} {fs : List Fragment} :
    fault? (u ++ t) u.size fs = none ↔ Placed u.size t fs := by
  induction fs generalizing u t with
  | nil => exact ⟨fun _ => .rest _ _, fun _ => rfl⟩
  | cons f fs ih =>
    have tail (gap x v : Text) : u ++ (gap ++ (x ++ v)) = (u ++ gap ++ x) ++ v := by simp
    constructor
    · intro h
      unfold fault? at h
      dsimp only at h
      split at h
      · cases h
      next inside =>
      split at h
      · cases h
      next borders =>
      simp only [Bool.or_eq_true, decide_eq_true_eq, not_or, Nat.not_lt] at inside
      simp only [Bool.or_eq_true, Bool.not_eq_true', not_or, Bool.not_eq_false] at borders
      obtain ⟨a, b, hab, ha⟩ := Text.isBorder_iff.1 borders.1
      obtain ⟨a', b', hab', ha'⟩ := Text.isBorder_iff.1 borders.2
      obtain ⟨gap, rfl, rfl⟩ := Text.exists_append_of_size_le hab (by omega)
      obtain ⟨x, rfl, rfl⟩ := Text.exists_append_of_size_le (hab.symm.trans hab') (by omega)
      have more : Placed (u ++ gap ++ x).size b' fs := by
        rw [← ih, ← tail, ha']
        exact h
      rw [Text.size_append, Text.size_append] at ha' more
      rw [Text.size_append] at ha
      refine .next gap x ?_ more
      rw [ha', ha]
    · intro h
      cases h with
      | @next _ t _ _ gap x span more =>
        have start : (u ++ (gap ++ (x ++ t))).isBorder (u.size + gap.size) = true :=
          Text.isBorder_iff.2 ⟨u ++ gap, x ++ t, by simp, by simp⟩
        have stop : (u ++ (gap ++ (x ++ t))).isBorder (u.size + gap.size + x.size) = true :=
          Text.isBorder_iff.2 ⟨u ++ gap ++ x, t, tail _ _ _, by simp [Nat.add_assoc]⟩
        have sized : u.size + gap.size + x.size = (u ++ gap ++ x).size := by simp [Nat.add_assoc]
        unfold fault?
        simp only [span, start, stop, Text.size_append]
        rw [if_neg (by simp; omega), if_neg (by simp), tail, sized]
        exact ih.2 (sized ▸ more)

theorem placed_of_fault? {buffer : Text} {fs : List Fragment} (h : fault? buffer 0 fs = none) :
    Placed 0 buffer fs :=
  (fault?_eq_none_iff (u := [])).1 h

section
variable {u t gap x : Text} {f : Fragment} {fs : List Fragment}

/-- The first fragment of a text that is placed behind `u`. -/
theorem weave_next (put : Fragment → Text)
    (span : f.span = ⟨u.size + gap.size, u.size + gap.size + x.size⟩) :
    weave put (u ++ (gap ++ (x ++ t))) u.size (f :: fs) =
      gap ++ (put f ++ weave put ((u ++ gap ++ x) ++ t) (u ++ gap ++ x).size fs) := by
  have whole : u ++ (gap ++ (x ++ t)) = u ++ gap ++ x ++ t := by simp
  rw [weave, span, Text.slice_between, whole, Text.size_append, Text.size_append]

theorem slice_placed (span : f.span = ⟨u.size + gap.size, u.size + gap.size + x.size⟩) :
    (u ++ (gap ++ (x ++ t))).slice f.span = x := by
  have cut := Text.slice_between (u ++ gap) x t
  rwa [Text.size_append, List.append_assoc, ← span] at cut

theorem weave_congr {put put' : Fragment → Text} (h : ∀ f ∈ fs, put f = put' f) (buffer : Text)
    (n : Nat) : weave put buffer n fs = weave put' buffer n fs := by
  induction fs generalizing n with
  | nil => rfl
  | cons f fs ih =>
    rw [weave, weave, h f List.mem_cons_self, ih fun g hg => h g (List.mem_cons_of_mem _ hg)]

/-- With its own text in place of every fragment a buffer is as it was. -/
theorem weave_own {fs : List Fragment} (h : Placed u.size t fs) :
    weave (fun f => (u ++ t).slice f.span) (u ++ t) u.size fs = t := by
  generalize hn : u.size = n at h
  suffices own : ∀ put : Fragment → Text, put = (fun f => (u ++ t).slice f.span) →
      weave put (u ++ t) u.size fs = t by
    rw [← hn]
    exact own _ rfl
  intro put hput
  induction h generalizing u with
  | rest => rw [weave, Text.after_size]
  | @next n t f fs gap x span more ih =>
    subst hn
    have whole : u ++ (gap ++ (x ++ t)) = u ++ gap ++ x ++ t := by simp
    rw [weave_next put span, ih (u := u ++ gap ++ x) (by simp [Nat.add_assoc]) (whole ▸ hput)]
    simp only [hput]
    rw [slice_placed span]

/-- A buffer of which the text `u` is untouched and the fragments behind it are done. The length
expected of it is the one that it has. -/
structure Done (format : Formatter) (c : Config) (buffer u : Text) (fs : List Fragment)
    (s : Progress) : Prop where
  text : s.text = u ++ weave (standing format c buffer) buffer u.size fs
  expected : s.expected = s.text.size
  replaced : s.replaced = fs.countP (isReplaced format c buffer)
  skipped : s.skipped = fs.countP (fun f => !isReplaced format c buffer f)

/-- One step more. It finds the text before its fragment untouched and the text behind it done, and
takes the fragment's length off a length that includes it. -/
theorem Done.add {format : Formatter} {c : Config} {buffer : Text} {s : Progress}
    (h : Done format c buffer (u ++ gap ++ x) fs s) (hb : buffer = u ++ (gap ++ (x ++ t)))
    (span : f.span = ⟨u.size + gap.size, u.size + gap.size + x.size⟩) :
    Done format c buffer u (f :: fs) (s.add (f, replacement format c buffer f)) := by
  obtain ⟨text, expected, replaced, skipped⟩ := h
  have whole : buffer = (u ++ gap ++ x) ++ t := by simp [hb]
  have woven : weave (standing format c buffer) (u ++ (gap ++ (x ++ t))) u.size (f :: fs) = _ :=
    weave_next (standing format c buffer) span
  rw [← hb, ← whole] at woven
  have own : buffer.slice f.span = x := by rw [hb]; exact slice_placed span
  cases hr : replacement format c buffer f with
  | error reason =>
    have hf : isReplaced format c buffer f = false := by simp [isReplaced, hr, Except.isOk, Except.toBool]
    have stands : standing format c buffer f = x := by rw [standing, hr]; exact own
    refine ⟨?_, expected, ?_, ?_⟩
    · rw [woven]
      simp [Progress.add, text, stands]
    · simp [Progress.add, replaced, hf]
    · simp [Progress.add, skipped, hf]
  | ok new =>
    have hf : isReplaced format c buffer f = true := by simp [isReplaced, hr, Except.isOk, Except.toBool]
    have stands : standing format c buffer f = new := by rw [standing, hr]
    have filled : replaceSpan s.text f.span new = u ++ gap ++ new ++
        weave (standing format c buffer) buffer (u ++ gap ++ x).size fs := by
      rw [replaceSpan, text, span, ← Text.size_append, ← Text.size_append, Text.after_size,
        List.append_assoc (u ++ gap) x, Text.before_size]
    have width : f.span.length = x.size := by
      simp only [span, Span.length]
      omega
    refine ⟨?_, ?_, ?_, ?_⟩
    · rw [woven]
      simp [Progress.add, filled, stands]
    · simp only [Progress.add, filled]
      rw [expected, text, width]
      simp only [Text.size_append]
      omega
    · simp [Progress.add, replaced, hf]
    · simp [Progress.add, skipped, hf]

theorem done_progress (format : Formatter) (c : Config) {buffer : Text} (h : Placed u.size t fs)
    (hb : buffer = u ++ t) :
    Done format c buffer u fs (progress buffer (outcomes format c buffer fs)) := by
  generalize hn : u.size = n at h
  induction h generalizing u with
  | rest n t =>
    subst hn hb
    refine ⟨?_, rfl, rfl, rfl⟩
    rw [weave, Text.after_size]
    rfl
  | @next n t f fs gap x span more ih =>
    subst hn
    have behind := ih (u := u ++ gap ++ x) (by simp [hb]) (by simp [Nat.add_assoc])
    exact behind.add hb span

/-- A fragment in the middle is itself placed, behind more text. -/
theorem Placed.suffix {n : Nat} {before after : List Fragment}
    (h : Placed n t (before ++ f :: after)) :
    ∃ v gap x w, t = v ++ (gap ++ (x ++ w)) ∧
      f.span = ⟨n + v.size + gap.size, n + v.size + gap.size + x.size⟩ ∧
      Placed (n + v.size + gap.size + x.size) w after := by
  induction before generalizing n t with
  | nil =>
    cases h with
    | next gap x span more => exact ⟨[], gap, x, _, rfl, by simpa using span, by simpa using more⟩
  | cons e before ih =>
    cases h with
    | next gap x span more =>
      obtain ⟨v, gap', x', w, rfl, span', more'⟩ := ih more
      refine ⟨gap ++ (x ++ v), gap', x', w, by simp, ?_, ?_⟩
      · simpa [Nat.add_assoc] using span'
      · simpa [Nat.add_assoc] using more'

/-- The length that a step takes off is there. -/
theorem length_le_expected (format : Formatter) (c : Config) {buffer : Text}
    {before after : List Fragment}
    (h : Placed 0 buffer (before ++ f :: after)) :
    f.span.length ≤ (progress buffer (outcomes format c buffer after)).expected := by
  obtain ⟨v, gap, x, w, hb, span, more⟩ := h.suffix
  have whole : buffer = (v ++ gap ++ x) ++ w := by simp [hb]
  have sized : 0 + v.size + gap.size + x.size = (v ++ gap ++ x).size := by simp [Nat.add_assoc]
  obtain ⟨text, expected, -, -⟩ := done_progress format c (sized ▸ more) whole
  rw [expected, text, span, Span.length]
  simp only [Text.size_append]
  omega

theorem splice_of_placed (format : Formatter) (c : Config) {buffer : Text}
    (h : fault? buffer 0 fs = none) :
    splice format c buffer fs =
      .ok { text := weave (standing format c buffer) buffer 0 fs
            replaced := fs.countP (isReplaced format c buffer)
            skipped := fs.countP (fun f => !isReplaced format c buffer f) } := by
  have whole : buffer = [] ++ buffer := rfl
  obtain ⟨text, expected, replaced, skipped⟩ :=
    done_progress (u := []) format c (placed_of_fault? h) whole
  rw [splice, h]
  dsimp only
  rw [if_pos expected.symm, text, replaced, skipped]
  rfl

end

/-- Processing fails exactly for fragments whose spans the check refuses; the check of the length
refuses nothing more and its subtraction never falls below zero. Otherwise the text is the
buffer, byte for byte between the spans, with the text that stands for each fragment. -/
theorem splice_weaves (format : Formatter) (c : Config) (buffer : Text) (fs : List Fragment) :
    (∀ e, splice format c buffer fs = .error e ↔ fault? buffer 0 fs = some e) ∧
    (fault? buffer 0 fs = none →
      splice format c buffer fs =
        .ok { text := weave (standing format c buffer) buffer 0 fs
              replaced := fs.countP (isReplaced format c buffer)
              skipped := fs.countP (fun f => !isReplaced format c buffer f) } ∧
      fs.countP (isReplaced format c buffer) +
        fs.countP (fun f => !isReplaced format c buffer f) = fs.length ∧
      weave (fun f => buffer.slice f.span) buffer 0 fs = buffer ∧
      ∀ before f after, fs = before ++ f :: after →
        f.span.length ≤ (progress buffer (outcomes format c buffer after)).expected) := by
  refine ⟨fun e => ?_, fun h => ⟨splice_of_placed format c h, ?_, ?_, ?_⟩⟩
  · cases h : fault? buffer 0 fs with
    | some e' => simp [splice, h]
    | none => simp [splice_of_placed format c h]
  · rw [List.length_eq_countP_add_countP (isReplaced format c buffer)]
    simp
  · exact weave_own (u := []) (placed_of_fault? h)
  · rintro before f after rfl
    exact length_le_expected format c (placed_of_fault? h)

end HostSql.Splice
