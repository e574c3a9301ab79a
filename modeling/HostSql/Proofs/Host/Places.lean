import HostSql.Proofs.Host.Shape

/-! The places that a run comes to, and where the fragments lie that it finds. Every step moves over a
text that stands ahead, so a place never lies inside a character or outside the text, and no text is
passed twice. -/
namespace HostSql

namespace Text

/-- The text `x` stands at a range of `t`, which lies in `t` and begins and ends between
characters. -/
structure Covers (t : Text) (s : Span) (x : Text) : Prop where
  ordered : s.start ≤ s.stop
  inside : s.stop ≤ t.size
  start : t.isBorder s.start = true
  stop : t.isBorder s.stop = true
  text : t.slice s = x

theorem covers_between (u x w : Text) : Covers (u ++ (x ++ w)) ⟨u.size, u.size + x.size⟩ x where
  ordered := Nat.le_add_right _ _
  inside := by simp only [size_append]; omega
  start := isBorder_iff.2 ⟨u, x ++ w, rfl, rfl⟩
  stop := isBorder_iff.2 ⟨u ++ x, w, by simp, by simp⟩
  text := slice_between u x w

theorem Covers.stands {t x : Text} {s : Span} (h : Covers t s x) :
    ∃ u w, t = u ++ (x ++ w) ∧ s = ⟨u.size, u.size + x.size⟩ := by
  obtain ⟨ordered, -, start, stop, text⟩ := h
  obtain ⟨start, stop⟩ := s
  dsimp only at *
  obtain ⟨u, v, rfl, rfl⟩ := isBorder_iff.1 start
  obtain ⟨u', v', same, rfl⟩ := isBorder_iff.1 stop
  obtain ⟨y, rfl, rfl⟩ := exists_append_of_size_le same ordered
  rw [size_append, slice_between] at text
  subst text
  exact ⟨u, v', rfl, by rw [size_append]⟩

end Text

/-- A cursor that has moved over `u`. -/
structure Cursor.Passes (k : Cursor) (u : Text) (k' : Cursor) : Prop where
  ahead : k.ahead = u ++ k'.ahead
  behind : k'.behind = u.reverse ++ k.behind

theorem Cursor.Passes.offset {k k' : Cursor} {u : Text} (h : k.Passes u k') :
    k'.offset = k.offset + u.size := by
  simp only [Cursor.offset, h.behind, Text.size_append, Text.size_reverse, Nat.add_comm]

/-- The fragment covers a part of `u`, a text that begins at byte `n`. -/
def Fragment.Within (f : Fragment) (n : Nat) (u : Text) : Prop :=
  ∃ gap rest, u = gap ++ (f.text ++ rest) ∧
    f.span = ⟨n + gap.size, n + gap.size + f.text.size⟩

/-- Fragments that lie in `t`, a text that begins at byte `n`, each behind the one before it. -/
inductive Owned : Nat → Text → List Fragment → Prop
  | rest (n : Nat) (t : Text) : Owned n t []
  | next {n : Nat} {t : Text} {f : Fragment} {fs : List Fragment} (gap : Text)
      (span : f.span = ⟨n + gap.size, n + gap.size + f.text.size⟩)
      (more : Owned (n + gap.size + f.text.size) t fs) : Owned n (gap ++ (f.text ++ t)) (f :: fs)

section Owned
variable {n : Nat} {t u : Text} {f : Fragment} {fs : List Fragment}

theorem Owned.prepend (u : Text) (h : Owned (n + u.size) t fs) : Owned n (u ++ t) fs := by
  generalize hm : n + u.size = m at h
  cases h with
  | rest => exact .rest _ _
  | @next _ t f fs gap span more =>
    subst hm
    have offset : n + (u ++ gap).size = n + u.size + gap.size := by simp [Nat.add_assoc]
    rw [← List.append_assoc u]
    refine .next (u ++ gap) ?_ ?_
    · rw [offset]
      exact span
    · rw [offset]
      exact more

/-- A fragment in a text that is passed stands before those in the text behind it. -/
theorem Owned.cons (within : f.Within n u) (more : Owned (n + u.size) t fs) :
    Owned n (u ++ t) (f :: fs) := by
  obtain ⟨gap, rest, rfl, span⟩ := within
  have offset : n + (gap ++ (f.text ++ rest)).size = n + gap.size + f.text.size + rest.size := by
    simp only [Text.size_append]
    omega
  have shape : gap ++ (f.text ++ rest) ++ t = gap ++ (f.text ++ (rest ++ t)) := by simp
  rw [offset] at more
  rw [shape]
  exact .next gap span (more.prepend rest)

theorem Owned.least (h : Owned n t fs) (hf : f ∈ fs) : n ≤ f.span.start := by
  induction h with
  | rest => cases hf
  | next gap span more ih =>
    rcases List.mem_cons.1 hf with rfl | hf
    · rw [span]
      exact Nat.le_add_right _ _
    · have later := ih hf
      omega

theorem Owned.ascending (h : Owned n t fs) :
    fs.Pairwise fun f g => f.span.stop ≤ g.span.start := by
  induction h with
  | rest => exact .nil
  | next gap span more ih =>
    refine .cons (fun g hg => ?_) ih
    rw [span]
    exact more.least hg

theorem Owned.covers {v : Text} (h : Owned v.size t fs) (hf : f ∈ fs) :
    (v ++ t).Covers f.span f.text := by
  generalize hn : v.size = n at h
  induction h generalizing v with
  | rest => cases hf
  | @next n t g fs gap span more ih =>
    subst hn
    rcases List.mem_cons.1 hf with rfl | hf
    · have here := Text.covers_between (v ++ gap) f.text t
      rwa [Text.size_append, ← span, List.append_assoc] at here
    · have behind : (v ++ gap ++ g.text).size = v.size + gap.size + g.text.size := by
        simp [Nat.add_assoc]
      have there := ih hf behind
      rwa [List.append_assoc, List.append_assoc] at there

end Owned

namespace Locator
variable {l : Locator} {p : Phase} {b t : Text} {k : Cursor}

/-- A step passes a text, and a fragment that it finds lies in that text. -/
theorem passes_of_steps {s : Step} (h : Steps l b p t s) :
    ∃ u, (⟨b, t⟩ : Cursor).Passes u s.cursor ∧
      ∀ f, s.found = some (.fragment f) → f.Within b.size u := by
  cases h with
  | plainLine | hash | opened => exact ⟨[], ⟨rfl, rfl⟩, nofun⟩
  | @marker u => exact ⟨u ++ ['\n'], ⟨by simp, rfl⟩, nofun⟩
  | lastMarker => exact ⟨t, ⟨by simp, rfl⟩, nofun⟩
  | newline => exact ⟨['\n'], ⟨rfl, rfl⟩, nofun⟩
  | @argument gap w u =>
    refine ⟨l.callName ++ (gap ++ u.text), ⟨by simp, rfl⟩, ?_⟩
    rintro _ ⟨⟩
    exact ⟨l.callName ++ gap, [], by simp, rfl⟩
  | refused =>
    refine ⟨l.callName, ⟨rfl, rfl⟩, fun f hf => ?_⟩
    dsimp only at hf
    split at hf <;> cases hf
  | @name c w => exact ⟨c :: w, ⟨rfl, rfl⟩, nofun⟩
  | @other c => exact ⟨[c], ⟨rfl, rfl⟩, nofun⟩
  | @comment c u => exact ⟨c :: u, ⟨rfl, rfl⟩, nofun⟩
  | @closed u => exact ⟨u.text, ⟨rfl, rfl⟩, nofun⟩
  | @unclosed u => exact ⟨u, ⟨rfl, rfl⟩, nofun⟩
  | blankRest => exact ⟨t, ⟨by simp, rfl⟩, nofun⟩
  | @emptyBlock ls => exact ⟨Text.written ls, ⟨rfl, rfl⟩, nofun⟩
  | @block ls x tail =>
    have ends : tail = tail.take 1 ++ tail.drop 1 := (List.take_append_drop 1 tail).symm
    refine ⟨Text.written ls ++ (x ++ tail.take 1), ⟨?_, rfl⟩, ?_⟩
    · dsimp only
      rw [List.append_assoc, List.append_assoc, ← ends]
    · rintro _ ⟨⟩
      rcases withoutReturn_cases x with hx | ⟨hx, -⟩
      · refine ⟨Text.written ls, '\r' :: tail.take 1, ?_, rfl⟩
        rw [Fragment.text_ofBlock]
        conv => lhs; rw [hx]
        simp
      · refine ⟨Text.written ls, tail.take 1, ?_, rfl⟩
        rw [Fragment.text_ofBlock, ← hx]

/-- What a run finds from a place on lies ahead of that place: by induction on the run, each step
finding its fragment in the text that it passes. -/
theorem owned_found (l : Locator) (p : Phase) (b t : Text) :
    Owned b.size t (l.found p ⟨b, t⟩) := by
  by_cases ht : t = []
  · rw [ht, found_nil]
    exact .rest _ _
  have decreases := step_decreases l p ⟨b, t⟩ ht
  obtain ⟨u, passes, within⟩ := passes_of_steps (steps_step l p b ht)
  rw [found_step rfl ht]
  generalize l.step p ⟨b, t⟩ = s at *
  have more : Owned s.cursor.offset s.cursor.ahead (l.found s.phase s.cursor) :=
    owned_found l s.phase s.cursor.behind s.cursor.ahead
  have offset : s.cursor.offset = b.size + u.size := passes.offset
  have ahead : t = u ++ s.cursor.ahead := passes.ahead
  rw [offset] at more
  rw [ahead]
  cases hf : s.found with
  | none => exact more.prepend u
  | some x =>
    cases x with
    | fragment f => exact more.cons (within f hf)
    | refused => exact more.prepend u
termination_by (t.length, p.rank)
decreasing_by exact decreases

theorem owned_locate (l : Locator) (t : Text) : Owned 0 t (l.locate t) := by
  rw [locate_eq_found]
  exact owned_found l .lineStart [] t

/-- The places that the run over a text comes to. -/
inductive Reaches (l : Locator) (t : Text) : Phase → Cursor → Prop
  | start : Reaches l t .lineStart (.atStart t)
  | next {p : Phase} {k : Cursor} (reached : Reaches l t p k) (more : k.ahead ≠ []) :
      Reaches l t (l.step p k).phase (l.step p k).cursor

theorem Reaches.whole (h : Reaches l t p k) : t = k.behind.reverse ++ k.ahead := by
  induction h with
  | start => rfl
  | @next p k _ more ih =>
    obtain ⟨u, passes, -⟩ := passes_of_steps (steps_step l p k.behind more)
    obtain ⟨ahead, behind⟩ := passes
    rw [ih, behind]
    dsimp only at ahead
    rw [ahead]
    simp

/-- What a phase finds where it is entered: a comment its sign, a literal its marks and a quote, and
all others no name that is already half passed. -/
def Ready : Phase → Cursor → Prop
  | .comment, k => k.ahead.head? = some '#'
  | .literal, k => (Literal.marks? k.ahead).isSome = true
  | _, k => k.ahead.head?.any isNameChar = true → k.followsName = false

theorem ready_of_steps {s : Step} (ready : Ready p ⟨b, t⟩) (h : Steps l b p t s) :
    Ready s.phase s.cursor := by
  have newline : isNameChar '\n' = false := by decide
  cases h with
  | plainLine => exact ready
  | marker => exact fun _ => by simp [newline]
  | lastMarker => exact fun name => by cases name
  | newline => exact fun _ => by simp [newline]
  | hash => rfl
  | opened marks => exact Option.isSome_iff_exists.2 ⟨_, marks⟩
  | @argument gap w u =>
    refine fun _ => ?_
    have behind := not_name_behind_literal (l.callName ++ gap) b u
    rwa [List.append_assoc] at behind
  | refused named => exact fun name => by rw [(append_of_afterName? named.name).2.2] at name; cases name
  | name _ stop => exact fun name => by rw [stop] at name; cases name
  | @other c t line hash quote start =>
    refine fun _ => ?_
    cases name : isNameChar c with
    | false => simpa using name
    | true =>
      have fresh : b.head?.any isNameChar = false := ready (by simpa using name)
      rw [name, fresh] at start
      cases start
  | comment c oneLine stop =>
    exact fun name => by rw [not_name_newline stop] at name; cases name
  | @closed u => exact fun _ => not_name_behind_literal [] b u
  | unclosed moves read =>
    rcases Literal.read_unclosed read with ⟨none, -⟩ | ended | ⟨lead, z, line, -⟩
    · rw [Ready, none] at ready
      cases ready
    · exact fun name => by rw [not_name_newline (.inl ended)] at name; cases name
    · exact fun name => by rw [not_name_newline (.inr ⟨z, line⟩)] at name; cases name
  | blankRest => exact fun name => by cases name
  | @emptyBlock ls =>
    rcases List.eq_nil_or_concat ls with rfl | ⟨init, x, rfl⟩
    · exact ready
    · exact fun _ => by simp [Text.written, newline]
  | @block ls x tail blank body stop =>
    rcases stop with rfl | ⟨z, rfl, -⟩
    · exact fun name => by cases name
    · exact fun _ => by simp [newline]

theorem Reaches.ready (h : Reaches l t p k) : Ready p k := by
  induction h with
  | start => exact fun _ => rfl
  | @next p k _ more ih => exact ready_of_steps ih (steps_step l p k.behind more)

/-- A character that a step passes alone takes one byte: a longer one belongs to a name, and where a
run meets a name it is at the first of its characters. -/
theorem Reaches.fresh {c : Char} {u : Text} (h : Reaches l t .code k) (ahead : k.ahead = c :: u)
    (long : c.utf8Size ≠ 1) : isNameChar c = true ∧ k.followsName = false := by
  have name : isNameChar c = true := by
    have high : ¬ c.val ≤ 127 := fun low => long (Char.utf8Size_eq_one_iff.2 low)
    rw [UInt32.le_iff_toNat_le, Nat.not_le] at high
    have beyond : '\x80' ≤ c := UInt32.le_iff_toNat_le.2 high
    simp [isNameChar, beyond]
  exact ⟨name, h.ready (by rw [ahead]; simpa using name)⟩

/-- The texts that the run over `t` looks at, each with the byte at which it is taken to begin: what
stands ahead of a place, its first line, the marks behind the parenthesis of a call, and the lines
behind a marker. -/
inductive Reads (l : Locator) (t : Text) : Nat → Text → Prop
  | ahead {p : Phase} {k : Cursor} (reached : Reaches l t p k) : Reads l t k.offset k.ahead
  | line {n : Nat} {x : Text} (read : Reads l t n x) : Reads l t n (line x)
  | marks {k : Cursor} {blanks gap opened m : Text} (reached : Reaches l t .code k)
      (called : l.afterName? k.ahead = some (blanks ++ '(' :: (gap ++ opened)))
      (marked : Literal.marks? opened = some m) :
      Reads l t (k.offset + Text.size (l.callName ++ (blanks ++ '(' :: gap))) m
  | blockLine {k : Cursor} {before more : List Text} {x : Text} (reached : Reaches l t .block k)
      (lines : Text.lines k.ahead = before ++ x :: more) :
      Reads l t (k.offset + Text.size (Text.written before)) x

/-- All of them stand in the text where they are taken to begin. -/
theorem Reads.stands {n : Nat} {x : Text} (h : Reads l t n x) :
    ∃ u w, t = u ++ (x ++ w) ∧ n = u.size := by
  induction h with
  | @ahead p k reached =>
    refine ⟨k.behind.reverse, [], ?_, ?_⟩
    · simpa using reached.whole
    · rw [Text.size_reverse, Cursor.offset]
  | @line n x _ ih =>
    obtain ⟨u, w, whole, start⟩ := ih
    refine ⟨u, x.dropWhile (· != '\n') ++ w, ?_, start⟩
    rw [whole, ← List.append_assoc (Locator.line x), Locator.line, List.takeWhile_append_dropWhile]
  | @marks k blanks gap opened m reached called marked =>
    obtain ⟨-, c, w, -, rfl⟩ := Literal.marks?_eq_some_iff.1 marked
    have ahead := (append_of_afterName? called).1
    refine ⟨k.behind.reverse ++ (l.callName ++ (blanks ++ '(' :: gap)), c :: w, ?_, ?_⟩
    · rw [reached.whole, ahead]
      simp
    · simp [Cursor.offset]
  | @blockLine k before more x reached lines =>
    obtain ⟨u, ahead, hu⟩ := Text.exists_written lines (List.cons_ne_nil _ _)
    obtain ⟨rest, first⟩ := head?_lines u
    rw [hu] at first
    obtain ⟨rfl, -⟩ := List.cons.inj first
    refine ⟨k.behind.reverse ++ Text.written before, u.dropWhile (· != '\n'), ?_, ?_⟩
    · rw [Locator.line, List.takeWhile_append_dropWhile, List.append_assoc, ← ahead]
      exact reached.whole
    · simp [Cursor.offset]

theorem Reads.covers {n : Nat} {x : Text} (h : Reads l t n x) : t.Covers ⟨n, n + x.size⟩ x := by
  obtain ⟨u, w, rfl, rfl⟩ := h.stands
  exact Text.covers_between u x w

/-- A fragment is found from a place that the run comes to. -/
theorem exists_reached (h : f ∈ l.locate t) :
    ∃ (p : Phase) (b a : Text), l.Reaches t p ⟨b, a⟩ ∧ a ≠ [] ∧ Finds l b p a f := by
  obtain ⟨p, ⟨b, a⟩, reached, more, finds⟩ :=
    exists_finds (P := l.Reaches t) (fun _ _ reached more => reached.next more) .start h
  exact ⟨p, b, a, reached, more, finds⟩

/-- The argument of a call is a literal, and behind it the call is closed. -/
theorem exists_argument (h : f ∈ l.locate t) (kind : f.kind = .call) :
    ∃ b w : Text, ∃ u : Literal, t = b ++ (u.text ++ w) ∧ f = .ofLiteral b.size u ∧ u.Sound ∧
      closesCall w = true := by
  obtain ⟨p, b, a, reached, -, finds⟩ := exists_reached h
  have whole := reached.whole
  cases finds with
  | @argument gap w u accepted =>
    obtain ⟨-, -, rest, -, same, -, -, sound, -, -, closes⟩ := argument_eq_ok_iff.1 accepted
    obtain rfl : w = rest := List.append_cancel_left (List.append_cancel_left same)
    refine ⟨b.reverse ++ (l.callName ++ gap), w, u, ?_, ?_, sound, closes⟩
    · rw [whole]
      simp
    · rw [Text.size_append b.reverse, Text.size_reverse]
  | block => cases kind

end Locator
end HostSql
