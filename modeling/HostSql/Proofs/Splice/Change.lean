import HostSql.Proofs.Splice.Chain
import HostSql.Proofs.Splice.Located

/-! Texts in place of fragments never add up to the buffer that they were put into, unless each of them
is the text that was there. The run is followed up to the first place at which they could differ: a
literal is read the same way in both texts, and a group of lines has to keep its last line. -/
namespace HostSql.Splice
open Locator
open Text (written)

section Weave
variable {put : Fragment → Text} {v u t : Text} {fs : List Fragment}

/-- A text before the first fragment is kept. -/
theorem weave_prepend (h : Placed (v ++ u).size t fs) :
    weave put (v ++ (u ++ t)) v.size fs = u ++ weave put ((v ++ u) ++ t) (v ++ u).size fs := by
  generalize hn : (v ++ u).size = n at h
  cases h with
  | rest =>
    rw [weave, weave, Text.after_size, ← hn, Text.after_size]
  | @next _ t f fs gap x span more =>
    subst hn
    have near : f.span = ⟨v.size + (u ++ gap).size, v.size + (u ++ gap).size + x.size⟩ := by
      simpa [Nat.add_assoc] using span
    have shape : v ++ (u ++ (gap ++ (x ++ t))) = v ++ ((u ++ gap) ++ (x ++ t)) := by simp
    rw [shape, weave_next put near, weave_next put span]
    simp

end Weave

variable {l : Locator} {put : Fragment → Text} {p p' : Phase} {b u t : Text} {f : Fragment}

/-- The text ahead of a place, with what `put` gives for each fragment that is found there. -/
def woven (put : Fragment → Text) (l : Locator) (p : Phase) (k : Cursor) : Text :=
  weave put (k.behind.reverse ++ k.ahead) (Text.size k.behind.reverse) (l.found p k)

theorem woven_nothing (h : l.found p ⟨b, t⟩ = []) : woven put l p ⟨b, t⟩ = t := by
  rw [woven, h, weave, Text.after_size]

theorem placed_found (l : Locator) (p : Phase) (k : Cursor) :
    Placed (Text.size k.behind.reverse) k.ahead (l.found p k) := by
  rw [Text.size_reverse]
  exact placed_of_owned (l.owned_found p k.behind k.ahead)

/-- A text that is passed without a fragment. -/
theorem woven_pass {k k' : Cursor} (passes : k.Passes u k') (h : l.found p k = l.found p' k') :
    woven put l p k = u ++ woven put l p' k' := by
  obtain ⟨b, t⟩ := k
  obtain ⟨b', t'⟩ := k'
  obtain ⟨ahead, behind⟩ := passes
  dsimp only at ahead behind
  subst ahead behind
  have behind : (u.reverse ++ b).reverse = b.reverse ++ u := by simp
  have placed := placed_found l p' ⟨u.reverse ++ b, t'⟩
  rw [woven, woven, h]
  dsimp only at *
  rw [behind] at placed ⊢
  exact weave_prepend placed

/-- A text that is passed with a fragment in it. -/
theorem woven_fragment {gap rest : Text}
    (h : l.found p ⟨b, gap ++ (f.text ++ (rest ++ t))⟩ =
      f :: l.found p' ⟨(gap ++ (f.text ++ rest)).reverse ++ b, t⟩)
    (span : f.span = ⟨b.size + gap.size, b.size + gap.size + f.text.size⟩) :
    woven put l p ⟨b, gap ++ (f.text ++ (rest ++ t))⟩ =
      gap ++ (put f ++ (rest ++ woven put l p' ⟨(gap ++ (f.text ++ rest)).reverse ++ b, t⟩)) := by
  have behind : ((gap ++ (f.text ++ rest)).reverse ++ b).reverse =
      (b.reverse ++ gap ++ f.text) ++ rest := by simp
  have placed := placed_found l p' ⟨(gap ++ (f.text ++ rest)).reverse ++ b, t⟩
  rw [← Text.size_reverse b] at span
  rw [woven, woven, h]
  dsimp only at *
  rw [behind] at placed ⊢
  rw [weave_next put span, weave_prepend placed]

section Blanks

/-- No name begins with a blank. -/
def Trimmed (l : Locator) : Prop := ∀ c ∈ l.callName.head?, isBlank c = false

theorem unmarked_blank {c : Char} (hc : isBlank c = true) (t : Text) :
    (Literal.marks? (c :: t)).any (!·.isEmpty) = false := by
  cases hm : Literal.marks? (c :: t) with
  | none => rfl
  | some m =>
    obtain ⟨marks, q, w, -, whole⟩ := Literal.marks?_eq_some_iff.1 hm
    cases m with
    | nil => rfl
    | cons d m =>
      obtain ⟨rfl, -⟩ := List.cons.inj whole
      have mark := Literal.isMark_of_mem marks List.mem_cons_self
      have solid := Literal.isMark_elim (p := (!isBlank ·)) (by decide) mark
      simp [hc] at solid

theorem afterName?_blank {c : Char} (trimmed : Trimmed l) (hc : isBlank c = true) (t : Text) :
    l.afterName? (c :: t) = none := by
  cases h : l.afterName? (c :: t) with
  | none => rfl
  | some rest =>
    obtain ⟨whole, some, -⟩ := append_of_afterName? h
    obtain ⟨d, name, hd⟩ := List.exists_cons_of_ne_nil some
    rw [hd, List.cons_append] at whole
    obtain ⟨rfl, -⟩ := List.cons.inj whole
    rw [trimmed c (by simp [hd])] at hc
    cases hc

/-- Blanks at the end of a line are passed. -/
theorem found_blanks (trimmed : Trimmed l) (b : Text) {u t : Text}
    (blank : ∀ c ∈ u, isBlank c = true) (oneLine : '\n' ∉ u) (stop : t = [] ∨ ∃ z, t = '\n' :: z) :
    l.found .code ⟨b, u ++ t⟩ = l.found .code ⟨u.reverse ++ b, t⟩ := by
  cases u with
  | nil => rfl
  | cons c u =>
    have hc : isBlank c = true := blank c List.mem_cons_self
    cases start : isNameChar c && !b.head?.any isNameChar with
    | false =>
      have hash : c ≠ '#' := by
        rintro rfl
        cases hc
      have quote : isQuote c = false := by
        cases hq : isQuote c with
        | false => rfl
        | true => rcases isQuote_iff.1 hq with rfl | rfl <;> cases hc
      simp only [List.mem_cons, not_or] at oneLine
      obtain ⟨line, oneLine⟩ := oneLine
      have rest := found_blanks trimmed (c :: b) (List.forall_mem_cons.1 blank).2 oneLine stop
      rw [List.cons_append, found_other (Ne.symm line) hash quote start, rest]
      simp
    | true =>
      simp only [Bool.and_eq_true, Bool.not_eq_true'] at start
      obtain ⟨w, z, rfl, name, ends⟩ := Text.exists_takeWhile isNameChar u
      have ends' : (z ++ t).head?.any isNameChar = false := by
        cases z with
        | nil => exact not_name_newline stop
        | cons => exact ends
      have behind : ∀ d ∈ z, isBlank d = true := fun d hd => blank d (by simp [hd])
      have rest := found_blanks trimmed ((c :: w).reverse ++ b) behind (by simp_all) stop
      rw [List.cons_append, List.append_assoc, found_name name start.1 ends' start.2
        (unmarked_blank hc _) (afterName?_blank trimmed hc _), rest]
      simp
termination_by u.length

end Blanks

section Lines

/-- A blank line stays as it is. -/
theorem lines_woven_blank (put : Fragment → Text) (trimmed : Trimmed l) (b : Text)
    (blank : (line t).isBlankLine = true) :
    ∃ rest rest', Text.lines t = line t :: rest ∧
      Text.lines (woven put l .lineStart ⟨b, t⟩) = line t :: rest' := by
  have plain : l.isMarkerLine (line t) = false := not_marker_of_blank blank
  obtain ⟨u, v, rfl, oneLine, stop⟩ := Text.exists_line t
  have first : line (u ++ v) = u := by
    rcases stop with rfl | ⟨z, rfl⟩
    · rw [List.append_nil, line_eq_self oneLine]
    · exact line_append_newline oneLine z
  rw [first] at blank plain ⊢
  have passed : l.found .lineStart ⟨b, u ++ v⟩ = l.found .code ⟨u.reverse ++ b, v⟩ := by
    rw [found_plainLine (by rwa [first])]
    exact found_blanks trimmed b (List.all_eq_true.1 blank) oneLine stop
  rw [woven_pass ⟨rfl, rfl⟩ passed]
  rcases stop with rfl | ⟨z, rfl⟩
  · rw [woven_nothing (found_nil ..), List.append_nil, Text.lines_eq_singleton oneLine]
    exact ⟨[], [], rfl, rfl⟩
  · rw [woven_pass (u := ['\n']) ⟨rfl, rfl⟩ (found_newline l (u.reverse ++ b) z),
      List.singleton_append, Text.lines_append_newline oneLine, Text.lines_append_newline oneLine]
    exact ⟨_, _, rfl, rfl⟩

/-- A block with other lines in its place. -/
theorem group_of_fills {x cr : Text} (body : ∀ y ∈ Text.lines (x ++ cr), l.continuesBlock y = true)
    (end' : cr = [] ∨ cr = ['\r']) (kind : f.kind = .block) (own : f.text = x)
    (fills : Fills f (put f)) :
    Group l.continuesBlock Text.isBlankLine (Text.lines (x ++ cr)) (Text.lines (put f ++ cr)) := by
  refine ⟨body, Text.lines_ne_nil _, ?_⟩
  generalize put f = new at fills
  cases fills with
  | own =>
    refine .inl fun y hy => ?_
    rw [own] at hy
    exact (continuesBlock_iff.1 (body y hy)).1
  | literal kind' =>
    rw [kind] at kind'
    cases kind'
  | lines _ filled =>
    left
    rcases end' with rfl | rfl
    · rwa [List.append_nil]
    · refine (Text.forall_lines_concat (by decide) (fun y => ?_) new).2 filled
      rw [Text.isBlankLine_return]
  | nothing =>
    refine .inr ⟨cr, Text.lines_eq_singleton ?_⟩
    rcases end' with rfl | rfl <;> decide

/-- A block is passed with other lines in its place. -/
theorem woven_block {ls : List Text} {x tail : Text} (b : Text)
    (blank : ∀ y ∈ ls, Text.isBlankLine y = true ∧ '\n' ∉ y)
    (body : ∀ y ∈ Text.lines x, l.continuesBlock y = true)
    (stop : tail = [] ∨ ∃ t, tail = '\n' :: t ∧ l.continuesBlock (line t) = false)
    (hf : f = .ofBlock (b.size + Text.size (written ls)) (withoutReturn x)) (fills : Fills f (put f)) :
    ∃ new, woven put l .block ⟨b, written ls ++ (x ++ tail)⟩ =
        written ls ++ (new ++ (tail.take 1 ++ woven put l .lineStart
          ⟨(written ls ++ (x ++ tail.take 1)).reverse ++ b, tail.drop 1⟩)) ∧
      Group l.continuesBlock Text.isBlankLine (Text.lines x) (Text.lines new) ∧
      (new = x → put f = f.text) := by
  have located := found_block blank body stop b
  obtain ⟨cr, hx, ends⟩ : ∃ cr, x = withoutReturn x ++ cr ∧ (cr = [] ∨ cr = ['\r']) := by
    rcases withoutReturn_cases x with h | ⟨h, -⟩
    · exact ⟨['\r'], h, .inr rfl⟩
    · exact ⟨[], by simpa using h, .inl rfl⟩
  have text : f.text = withoutReturn x := by rw [hf, Fragment.text_ofBlock]
  have span : f.span = ⟨b.size + (written ls).size, b.size + (written ls).size + f.text.size⟩ := by
    rw [text, hf]
    rfl
  have kind : f.kind = .block := by rw [hf]; rfl
  rw [← hf] at located
  rw [← text] at hx
  have whole : tail.take 1 ++ tail.drop 1 = tail := List.take_append_drop 1 tail
  have shape : x ++ tail = f.text ++ ((cr ++ tail.take 1) ++ tail.drop 1) := by
    rw [hx, List.append_assoc cr, whole, List.append_assoc]
  have moved : x ++ tail.take 1 = f.text ++ (cr ++ tail.take 1) := by
    rw [hx, List.append_assoc]
  refine ⟨put f ++ cr, ?_, ?_, ?_⟩
  · rw [shape, moved] at located
    rw [shape, moved, woven_fragment located span]
    simp
  · rw [hx] at body ⊢
    exact group_of_fills body ends kind rfl fills
  · intro same
    rw [hx] at same
    exact List.append_cancel_right same

/-- A marker and the blank lines behind it. -/
theorem gap_marker {ls : List Text} (filled : u.isBlankLine = false)
    (marker : l.continuesBlock u = false) (blank : ∀ y ∈ ls, Text.isBlankLine y = true) :
    Gap l.continuesBlock Text.isBlankLine (u :: ls) := by
  refine ⟨fun y hy => ?_, u, ls, rfl, filled⟩
  rcases List.mem_cons.1 hy with rfl | hy
  · exact marker
  · simp [continuesBlock, blank y hy]

/-- Where no block goes on, the lines ahead and what they become are a chain: by induction on the text,
from one marker to the next. -/
theorem chain_woven (trimmed : Trimmed l) (b t : Text) (stop : l.continuesBlock (line t) = false)
    (fills : ∀ f ∈ l.found .lineStart ⟨b, t⟩, Fills f (put f)) :
    Chain l.continuesBlock Text.isBlankLine (Text.lines t)
      (Text.lines (woven put l .lineStart ⟨b, t⟩)) := by
  cases blank : Text.isBlankLine (line t) with
  | true =>
    obtain ⟨rest, rest', lines, lines'⟩ := lines_woven_blank put trimmed b blank
    rw [lines, lines']
    exact .blank blank stop rest rest'
  | false =>
  have marker : l.isMarkerLine (line t) = true := isMarkerLine_of_stop stop blank
  rcases Text.lines_cases t with ⟨one, oneLine⟩ | ⟨u, z, oneLine, rfl, -⟩
  · rw [line_eq_self oneLine] at marker blank stop
    rw [woven_nothing (found_lastMarker oneLine marker b), one]
    exact .quiet (gap_marker blank stop (by simp))
  · rw [line_append_newline oneLine] at marker blank stop
    have passed := found_marker oneLine marker b z
    rw [passed] at fills
    rw [woven_pass (u := u ++ ['\n']) ⟨by simp, rfl⟩ passed, List.append_assoc,
      List.singleton_append, Text.lines_append_newline oneLine, Text.lines_append_newline oneLine]
    generalize (u ++ ['\n']).reverse ++ b = b at *
    have gap {ls : List Text} (still : ∀ y ∈ ls, Text.isBlankLine y = true ∧ '\n' ∉ y) :
        Gap l.continuesBlock Text.isBlankLine (u :: ls) :=
      gap_marker blank stop fun y hy => (still y hy).1
    rcases block_cases l z with rest | ⟨ls, v, rfl, hl, solid, ends⟩ |
      ⟨ls, x, tail, rfl, hl, body, ends⟩
    · rw [woven_nothing (found_blankRest rest b)]
      exact .quiet (gap_marker blank stop rest)
    · -- another marker follows
      have blanks := found_emptyBlock hl solid ends b
      rw [blanks] at fills
      have plain : ∀ y ∈ ls, '\n' ∉ y := fun y hy => (hl y hy).2
      rw [woven_pass ⟨rfl, rfl⟩ blanks, Text.lines_written plain, Text.lines_written plain]
      have first : ∃ y ∈ (Text.lines v).head?, Text.isBlankLine y = false := by
        obtain ⟨more, hm⟩ := head?_lines v
        exact ⟨line v, by simp [hm], solid⟩
      exact Chain.prepend (gap hl) (chain_woven trimmed _ v ends fills) first
    · -- a block follows, and the end or a place where it does not go on
      have found := found_block hl body ends b
      rw [found] at fills
      obtain ⟨first, later⟩ := List.forall_mem_cons.1 fills
      obtain ⟨new, woven, group, -⟩ := woven_block b hl body ends rfl first
      have plain : ∀ y ∈ ls, '\n' ∉ y := fun y hy => (hl y hy).2
      rw [woven, Text.lines_written plain, Text.lines_written plain]
      rcases ends with rfl | ⟨v, rfl, ends⟩
      · have last := Chain.next (gap hl) group .done
        rw [List.append_nil, List.append_nil] at last
        rw [List.take_nil, List.drop_nil, woven_nothing (found_nil ..), List.append_nil,
          List.append_nil, List.append_nil]
        exact last
      · have more := chain_woven trimmed _ v ends later
        rw [List.take_succ_cons, List.take_zero, List.drop_succ_cons, List.drop_zero,
          List.singleton_append, Text.lines_append, Text.lines_append]
        exact .next (gap hl) group more
termination_by t.length

/-- If a block comes out as it was, so does the text behind it. -/
theorem woven_lines {ls : List Text} {x tail : Text} (trimmed : Trimmed l)
    (blank : ∀ y ∈ ls, Text.isBlankLine y = true ∧ '\n' ∉ y)
    (body : ∀ y ∈ Text.lines x, l.continuesBlock y = true)
    (stop : tail = [] ∨ ∃ t, tail = '\n' :: t ∧ l.continuesBlock (line t) = false)
    (hf : f = .ofBlock (b.size + Text.size (written ls)) (withoutReturn x)) (fills : Fills f (put f))
    (later : ∀ f ∈ l.found .lineStart
      ⟨(written ls ++ (x ++ tail.take 1)).reverse ++ b, tail.drop 1⟩, Fills f (put f))
    (same : woven put l .block ⟨b, written ls ++ (x ++ tail)⟩ = written ls ++ (x ++ tail)) :
    put f = f.text ∧
      woven put l .lineStart ⟨(written ls ++ (x ++ tail.take 1)).reverse ++ b, tail.drop 1⟩ =
        tail.drop 1 := by
  obtain ⟨new, whole, group, own⟩ := woven_block b blank body stop hf fills
  rw [whole] at same
  replace same := List.append_cancel_left same
  rcases stop with rfl | ⟨v, rfl, ends⟩
  · rw [List.take_nil, List.drop_nil, woven_nothing (found_nil ..), List.append_nil] at same
    refine ⟨own (List.append_cancel_right same), ?_⟩
    rw [List.drop_nil, woven_nothing (found_nil ..)]
  · rw [List.take_succ_cons, List.take_zero, List.drop_succ_cons, List.drop_zero,
      List.singleton_append] at *
    have more := chain_woven trimmed _ v ends later
    have lines := congrArg Text.lines same
    rw [Text.lines_append, Text.lines_append] at lines
    have joined := congrArg Text.ofLines (group.eq_of_append more lines.symm)
    rw [Text.ofLines_lines, Text.ofLines_lines] at joined
    rw [joined] at same
    obtain ⟨-, rest⟩ := List.cons.inj (List.append_cancel_left same)
    exact ⟨own joined, rest⟩

end Lines

section Argument

theorem plain_of_closing {c : Char} (closes : closesCall (c :: t) = true) :
    c ≠ '#' ∧ isNameChar c = false ∧ isQuote c = false := by
  by_cases opening : isGap c = true ∨ c = '('
  · exact plain_of_opening opening
  · have other : isGap c = false := by simpa using mt .inl opening
    rw [closesCall, List.dropWhile_cons_of_neg (by simp [other])] at closes
    split at closes
    · next same =>
      obtain ⟨rfl, -⟩ := List.cons.inj same
      decide
    · next same =>
      obtain ⟨rfl, -⟩ := List.cons.inj same
      decide
    · cases closes

/-- What closes a call is passed. -/
theorem head?_woven_closing (l : Locator) (put : Fragment → Text) (b : Text)
    (closes : closesCall t = true) :
    (woven put l .code ⟨b, t⟩).head? = t.head? := by
  cases t with
  | nil => cases closes
  | cons c t =>
    obtain ⟨p, passed⟩ : ∃ p, l.found .code ⟨b, c :: t⟩ = l.found p ⟨c :: b, t⟩ := by
      by_cases line : c = '\n'
      · subst line
        exact ⟨_, found_newline l b t⟩
      · obtain ⟨hash, name, quote⟩ := plain_of_closing closes
        exact ⟨_, found_other line hash quote (by simp [name]) t⟩
    rw [woven_pass (u := [c]) ⟨rfl, rfl⟩ passed]
    rfl

/-- If a call comes out as it was, so do its argument and the text behind it. -/
theorem woven_argument {gap w : Text} {u : Literal}
    (named : l.Named b (l.callName ++ (gap ++ (u.text ++ w))) (gap ++ (u.text ++ w)))
    (accepted : argument (gap ++ (u.text ++ w)) = .ok (gap, u))
    (fills : Fills f (put f)) (hf : f = .ofLiteral (b.size + Text.size (l.callName ++ gap)) u)
    (same : woven put l .code ⟨b, l.callName ++ (gap ++ (u.text ++ w))⟩ =
      l.callName ++ (gap ++ (u.text ++ w))) :
    put f = u.text ∧ woven put l .code ⟨(l.callName ++ (gap ++ u.text)).reverse ++ b, w⟩ = w := by
  obtain ⟨-, -, w', -, ahead, -, -, sound, -, -, closes⟩ := argument_eq_ok_iff.1 accepted
  obtain rfl : w = w' := List.append_cancel_left (List.append_cancel_left ahead)
  have text : f.text = u.text := by rw [hf, Fragment.text_ofLiteral]
  have located := found_argument named accepted
  have shape : l.callName ++ (gap ++ (u.text ++ w)) =
      (l.callName ++ gap) ++ (f.text ++ ([] ++ w)) := by simp [text]
  have moved : l.callName ++ (gap ++ u.text) = (l.callName ++ gap) ++ (f.text ++ []) := by simp [text]
  rw [← hf, shape, moved] at located
  have span : f.span = ⟨b.size + (l.callName ++ gap).size,
      b.size + (l.callName ++ gap).size + f.text.size⟩ := by
    rw [text, hf]
    rfl
  rw [shape, woven_fragment located span, ← moved] at same
  have behind := List.append_cancel_left same
  rw [text, List.nil_append, List.nil_append] at behind
  have closing := head?_woven_closing l put ((l.callName ++ (gap ++ u.text)).reverse ++ b) closes
  generalize put f = new at fills behind
  cases fills with
  | own =>
    rw [text] at behind ⊢
    exact ⟨rfl, List.append_cancel_left behind⟩
  | @literal q body _ encloses =>
    have sound' : (⟨f.marks, q, body⟩ : Literal).Sound := ⟨by rw [hf]; exact sound.marks, encloses⟩
    have apart (v : Literal) : v.Apart w := closesCall_apart closes
    obtain ⟨rfl, rest⟩ :=
      Literal.text_append_inj sound' sound ((apart _).of_head closing) (apart u) behind
    exact ⟨rfl, rest⟩
  | lines kind | nothing kind =>
    rw [hf] at kind
    cases kind

end Argument

/-- If the text ahead comes out as it was, each fragment has its own text: by induction on the run. -/
theorem own_of_woven (trimmed : Trimmed l) (p : Phase) (b t : Text)
    (fills : ∀ f ∈ l.found p ⟨b, t⟩, Fills f (put f)) (same : woven put l p ⟨b, t⟩ = t) :
    ∀ f ∈ l.found p ⟨b, t⟩, put f = f.text := by
  by_cases some : t = []
  · rw [some, found_nil]
    exact nofun
  have decreases := step_decreases l p ⟨b, t⟩ some
  have form := steps_step l p b some
  obtain ⟨u, passes, -⟩ := passes_of_steps form
  have found := found_step (l := l) (p := p) (k := ⟨b, t⟩) rfl some
  generalize l.step p ⟨b, t⟩ = s at *
  cases none : s.found.bind Finding.fragment? with
  | none =>
    rw [none] at found
    change l.found p ⟨b, t⟩ = l.found s.phase s.cursor at found
    rw [found] at fills ⊢
    rw [woven_pass passes found] at same
    have ahead : t = u ++ s.cursor.ahead := passes.ahead
    exact own_of_woven trimmed s.phase s.cursor.behind s.cursor.ahead fills
      (List.append_cancel_left (same.trans ahead))
  | some f =>
    rw [none] at found
    change l.found p ⟨b, t⟩ = f :: l.found s.phase s.cursor at found
    rw [found] at fills ⊢
    obtain ⟨fits, later⟩ := List.forall_mem_cons.1 fills
    have step : put f = f.text ∧ woven put l s.phase s.cursor = s.cursor.ahead := by
      cases form with
      | argument named accepted =>
        cases none
        exact woven_argument named accepted fits rfl same
      | refused =>
        dsimp only at none
        split at none <;> cases none
      | @block ls x tail blank body stop =>
        cases none
        exact woven_lines trimmed blank body stop rfl fits later same
      | _ => cases none
    exact List.forall_mem_cons.2 ⟨step.1,
      own_of_woven trimmed s.phase s.cursor.behind s.cursor.ahead later step.2⟩
termination_by (t.length, p.rank)
decreasing_by all_goals exact decreases

end HostSql.Splice
