import HostSql.Proofs.Host.Scan

/-! Putting other texts in place of fragments moves the fragments behind them and changes nothing
else about what is found. The run over the new text goes through the same phases as the run over
the old one; at every place the texts ahead are alike, so no step can tell them apart. -/
namespace HostSql

namespace Fragment

/-- What the fragment covers: a literal with its marks and delimiters, or lines. -/
def text (f : Fragment) : Text :=
  match f.quote with
  | some q => (⟨f.marks, q, f.raw⟩ : Literal).text
  | none => f.raw

@[simp] theorem text_ofLiteral (n : Nat) (u : Literal) : (ofLiteral n u).text = u.text := rfl

@[simp] theorem text_ofBlock (n : Nat) (raw : Text) : (ofBlock n raw).text = raw := rfl

end Fragment

/-- Texts that can stand in place of a fragment: its own, for a call any literal with the same marks,
for a block any lines that do not end it. -/
inductive Fits (l : Locator) (f : Fragment) : Text → Prop
  | own : Fits l f f.text
  | literal {q : Quote} {body : Text} (kind : f.kind = .call) (encloses : q.Encloses body) :
      Fits l f (⟨f.marks, q, body⟩ : Literal).text
  | lines {x : Text} (kind : f.kind = .block)
      (body : ∀ y ∈ Text.lines x, l.continuesBlock y = true) (ends : x.getLast? ≠ some '\r') :
      Fits l f x

/-- The fragments of two texts that begin at bytes `n` and `n'`, the second text being the first one
with what `put` gives in place of each fragment. -/
inductive Moved (put : Fragment → Text) :
    Nat → Text → List Fragment → Nat → Text → List Fragment → Prop
  | rest (n n' : Nat) (t : Text) : Moved put n t [] n' t []
  | next {n n' : Nat} {t t' : Text} {f f' : Fragment} {fs fs' : List Fragment} (gap : Text)
      (span : f.span = ⟨n + gap.size, n + gap.size + f.text.size⟩)
      (span' : f'.span = ⟨n' + gap.size, n' + gap.size + (put f).size⟩)
      (same : f'.kind = f.kind ∧ f'.marks = f.marks ∧ f'.interpolated = f.interpolated)
      (text : f'.text = put f)
      (more : Moved put (n + gap.size + f.text.size) t fs (n' + gap.size + (put f).size) t' fs') :
      Moved put n (gap ++ (f.text ++ t)) (f :: fs) n' (gap ++ (put f ++ t')) (f' :: fs')

theorem Moved.prepend {put : Fragment → Text} {n n' : Nat} {t t' : Text} {fs fs' : List Fragment}
    (u : Text) (h : Moved put (n + u.size) t fs (n' + u.size) t' fs') :
    Moved put n (u ++ t) fs n' (u ++ t') fs' := by
  generalize hm : n + u.size = m at h
  generalize hm' : n' + u.size = m' at h
  cases h with
  | rest => exact .rest _ _ _
  | @next _ _ t t' f f' fs fs' gap span span' same text more =>
    subst hm hm'
    rw [← List.append_assoc u, ← List.append_assoc u]
    refine .next (u ++ gap) ?_ ?_ same text ?_
    · rw [span, Text.size_append, Nat.add_assoc n]
    · rw [span', Text.size_append, Nat.add_assoc n']
    · rwa [Text.size_append, ← Nat.add_assoc n, ← Nat.add_assoc n']

/-- Text that both have passed. -/
theorem Moved.pass {put : Fragment → Text} {b b' t t' : Text} {fs fs' : List Fragment} (u : Text)
    (h : Moved put (Text.size (u.reverse ++ b)) t fs (Text.size (u.reverse ++ b')) t' fs') :
    Moved put b.size (u ++ t) fs b'.size (u ++ t') fs' := by
  rw [Text.size_append, Text.size_append, Text.size_reverse, Nat.add_comm, Nat.add_comm u.size] at h
  exact h.prepend u

namespace Locator
variable {l : Locator} {put : Fragment → Text} {p p' : Phase} {b t u rest : Text}

/-- The run over `t'` finds what the run over `t` finds, moved. -/
structure Follows (l : Locator) (put : Fragment → Text) (p : Phase) (b t t' : Text) : Prop where
  alike : p ≠ .block → Alike t t'
  moved : ∀ b', b'.head?.any isNameChar = b.head?.any isNameChar →
    Moved put b.size t (l.found p ⟨b, t⟩) b'.size t' (l.found p ⟨b', t'⟩)

/-- If the new texts fit, there is a text whose run follows. -/
def Simulated (l : Locator) (put : Fragment → Text) (p : Phase) (b t : Text) : Prop :=
  (∀ f ∈ l.found p ⟨b, t⟩, Fits l f (put f)) → ∃ t', l.Follows put p b t t'

/-- A run ends when a phase of lower rank is entered at every place. -/
def Below (p' : Phase) (t' : Text) (p : Phase) (t : Text) : Prop :=
  t'.length < t.length ∨ t'.length = t.length ∧ p'.rank < p.rank

theorem Simulated.nil (l : Locator) (put : Fragment → Text) (p : Phase) (b : Text) :
    Simulated l put p b [] := fun _ =>
  ⟨[], fun _ => .same _, fun b' _ => by simpa using Moved.rest _ _ _⟩

/-- A text in which nothing is found stays as it is. -/
theorem Simulated.of_nothing (h : ∀ b, l.found p ⟨b, t⟩ = []) : Simulated l put p b t := fun _ =>
  ⟨t, fun _ => .same _, fun b' _ => by rw [h, h]; exact Moved.rest _ _ _⟩

theorem head?_reverse_append {b b' : Text} (u : Text)
    (h : b'.head?.any isNameChar = b.head?.any isNameChar) :
    (u.reverse ++ b').head?.any isNameChar = (u.reverse ++ b).head?.any isNameChar := by
  cases hu : u.reverse with
  | nil => exact h
  | cons => rfl

/-- Passing over text in which nothing is found. -/
theorem Simulated.move (h : Simulated l put p' (u.reverse ++ b) t) (hp : p' ≠ .block)
    (here : l.found p ⟨b, u ++ t⟩ = l.found p' ⟨u.reverse ++ b, t⟩)
    (there : ∀ b' t', Alike t t' → b'.head?.any isNameChar = b.head?.any isNameChar →
      l.found p ⟨b', u ++ t'⟩ = l.found p' ⟨u.reverse ++ b', t'⟩) :
    Simulated l put p b (u ++ t) := by
  intro fits
  obtain ⟨t', alike, moved⟩ := h (here ▸ fits)
  refine ⟨u ++ t', fun _ => (alike hp).append u, fun b' hb => ?_⟩
  rw [here, there b' t' (alike hp) hb]
  exact (moved (u.reverse ++ b') (head?_reverse_append u hb)).pass u

section Phases

theorem simulated_lineStart (plain : l.Plain)
    (ih : ∀ p' b' t', Below p' t' .lineStart t → Simulated l put p' b' t') :
    Simulated l put .lineStart b t := by
  cases hm : l.isMarkerLine (line t) with
  | false =>
    have enter := ih .code b t (.inr ⟨rfl, by decide⟩)
    refine Simulated.move (u := []) enter (by decide) (found_plainLine hm) fun b' t' alike _ => ?_
    exact found_plainLine ((plain.isMarkerLine_alike alike).trans hm)
  | true =>
    rcases Text.lines_cases t with ⟨-, whole⟩ | ⟨u, w, hu, rfl, -⟩
    · exact .of_nothing fun b => found_lastMarker whole (by rwa [line_eq_self whole] at hm) b
    · rw [line_append_newline hu] at hm
      intro fits
      rw [found_marker hu hm] at fits
      obtain ⟨w', -, moved⟩ := ih .block ((u ++ ['\n']).reverse ++ b) w
        (.inl (by simp; omega)) fits
      refine ⟨u ++ '\n' :: w', fun _ => .line w w' (plain.mem_of_isMarkerLine hm), fun b' hb => ?_⟩
      have cut (z : Text) : u ++ '\n' :: z = (u ++ ['\n']) ++ z := by simp
      rw [found_marker hu hm, found_marker hu hm, cut w, cut w']
      exact (moved _ (head?_reverse_append _ hb)).pass _

theorem simulated_comment
    (ih : ∀ p' b' t', Below p' t' .comment t → Simulated l put p' b' t') :
    Simulated l put .comment b t := by
  cases t with
  | nil => exact .nil l put _ b
  | cons c t =>
    obtain ⟨u, w, rfl, hu, hw⟩ := Text.exists_line t
    have shorter : w.length < (c :: (u ++ w)).length := by
      simp only [List.length_cons, List.length_append]
      omega
    refine Simulated.move (u := c :: u) (ih .code _ w (.inl shorter)) (by decide)
      (found_comment hu hw b c) fun b' w' alike _ => found_comment hu ?_ b' c
    rcases hw with rfl | ⟨z, rfl⟩
    · exact .inl alike.eq_nil
    · exact .inr alike.exists_cons

theorem simulated_literal
    (ih : ∀ p' b' t', Below p' t' .literal t → Simulated l put p' b' t') :
    Simulated l put .literal b t := by
  by_cases ht : t = []
  · rw [ht]
    exact .nil l put _ b
  cases hr : Literal.read t with
  | closed v w =>
    obtain ⟨-, -, rfl⟩ := Literal.read_eq_closed_iff.1 hr
    have shorter : w.length < (v.text ++ w).length := by
      obtain ⟨more, hq⟩ := v.quote.delimiter_eq_cons
      simp [Literal.text, hq]
      omega
    exact Simulated.move (ih .code _ w (.inl shorter)) (by decide) (found_closed hr b)
      fun b' w' alike _ => found_closed (alike.read_closed hr) b'
  | unclosed w =>
    obtain ⟨u, hu, rfl, same⟩ := Literal.read_unclosed_append ht hr
    have shorter : w.length < (u ++ w).length := by
      have := List.length_pos_iff.2 hu
      rw [List.length_append]
      omega
    exact Simulated.move (ih .code _ w (.inl shorter)) (by decide) (found_unclosed hu hr b)
      fun b' w' alike _ => found_unclosed hu (same w' alike) b'

theorem Named.alike {rest' b' : Text} (h : l.Named b (l.callName ++ rest) rest)
    (alike : Alike rest rest') (hb : b'.head?.any isNameChar = b.head?.any isNameChar) :
    l.Named b' (l.callName ++ rest') rest' := by
  obtain ⟨-, named, head⟩ := append_of_afterName? h.name
  have whole := alike.append l.callName
  refine ⟨afterName?_append named (by rw [alike.head?_eq]; exact head), ?_, hb.trans h.fresh, ?_⟩
  · rw [whole.head?_eq]
    exact h.start
  · rw [whole.marks?_eq]
    exact h.unmarked

/-- A call that is refused for what its literal is or for what follows it: the literal is passed. -/
theorem found_passed {blanks gap m : Text} {reason : Refusal} (plain : l.Plain)
    (named : l.Named b (l.callName ++ (blanks ++ '(' :: (gap ++ (u ++ t))))
      (blanks ++ '(' :: (gap ++ (u ++ t))))
    (hb : ∀ c ∈ blanks, isIndent c = true) (hg : ∀ c ∈ gap, isGap c = true)
    (hm : Literal.marks? (u ++ t) = some m)
    (ha : argument (blanks ++ '(' :: (gap ++ (u ++ t))) = .error reason)
    (read : ∀ b, l.found .literal ⟨b, u ++ t⟩ = l.found .code ⟨u.reverse ++ b, t⟩) :
    l.found .code ⟨b, (l.callName ++ (blanks ++ '(' :: (gap ++ u))) ++ t⟩ =
      l.found .code ⟨(l.callName ++ (blanks ++ '(' :: (gap ++ u))).reverse ++ b, t⟩ := by
  have lead := opening_of_gap hb hg
  have opened := found_opened (b := l.callName.reverse ++ b) plain lead hm (by simp)
  have shape (z : Text) : blanks ++ '(' :: (gap ++ z) = (blanks ++ '(' :: gap) ++ z := by simp
  calc l.found .code ⟨b, (l.callName ++ (blanks ++ '(' :: (gap ++ u))) ++ t⟩
      = l.found .code ⟨b, l.callName ++ (blanks ++ '(' :: (gap ++ (u ++ t)))⟩ := by simp
    _ = l.found .code ⟨l.callName.reverse ++ b, blanks ++ '(' :: (gap ++ (u ++ t))⟩ :=
        found_refused named ha
    _ = l.found .literal ⟨(blanks ++ '(' :: gap).reverse ++ (l.callName.reverse ++ b), u ++ t⟩ := by
        rw [shape, opened]
    _ = l.found .code ⟨u.reverse ++ ((blanks ++ '(' :: gap).reverse ++ (l.callName.reverse ++ b)), t⟩ :=
        read _
    _ = _ := by simp

theorem closesCall_apart {v : Literal} (h : closesCall t = true) : v.Apart t := by
  intro _ _ head
  cases t with
  | nil => cases head
  | cons c t =>
    have quote : isQuote c = true := Option.some.inj head ▸ v.quote.isQuote_char
    rcases isQuote_iff.1 quote with rfl | rfl <;> cases h

theorem not_name_behind_literal (x b : Text) (v : Literal) :
    ((x ++ v.text).reverse ++ b).head?.any isNameChar = false := by
  rw [List.reverse_append, List.append_assoc, quote_behind]
  exact not_name_quote v

/-- The argument of a call is found again with another literal in its place. -/
theorem simulated_argument {lead w : Text} {v : Literal}
    (ih : Simulated l put .code ((l.callName ++ (lead ++ v.text)).reverse ++ b) w)
    (named : l.Named b (l.callName ++ (lead ++ (v.text ++ w))) (lead ++ (v.text ++ w)))
    (call : '(' ∈ lead) (sound : v.Sound)
    (accepted : ∀ (v' : Literal) w', v'.Sound → v'.marks = v.marks → Alike w w' →
      argument (lead ++ (v'.text ++ w')) = .ok (lead, v')) :
    Simulated l put .code b (l.callName ++ (lead ++ (v.text ++ w))) := by
  have here := found_argument named (accepted v w sound rfl (.same w))
  intro fits
  rw [here] at fits
  generalize hf : Fragment.ofLiteral (Text.size b + Text.size (l.callName ++ lead)) v = f at *
  obtain ⟨w', alike, moved⟩ := ih fun g hg => fits g (List.mem_cons_of_mem _ hg)
  obtain ⟨v', sound', marks, new⟩ : ∃ v' : Literal, v'.Sound ∧ v'.marks = v.marks ∧ put f = v'.text := by
    have fit := fits f List.mem_cons_self
    subst hf
    generalize put _ = x at fit
    cases fit with
    | own => exact ⟨v, sound, rfl, rfl⟩
    | @literal q body kind encloses => exact ⟨⟨v.marks, q, body⟩, ⟨sound.marks, encloses⟩, rfl, rfl⟩
    | lines kind => cases kind
  have alike := alike (by decide)
  have opened : Alike (lead ++ (v.text ++ w)) (lead ++ (v'.text ++ w')) := by
    obtain ⟨more, hq⟩ := v.quote.delimiter_eq_cons
    obtain ⟨more', hq'⟩ := v'.quote.delimiter_eq_cons
    have call' : '(' ∈ lead ++ v.marks := List.mem_append_left _ call
    have parts := Alike.quote (more ++ (v.body ++ (v.quote.delimiter ++ w)))
      (more' ++ (v'.body ++ (v'.quote.delimiter ++ w'))) call' v.quote.isQuote_char
      v'.quote.isQuote_char
    simpa [Literal.text, hq, hq', marks] using parts
  refine ⟨l.callName ++ (lead ++ (put f ++ w')), fun _ => new ▸ opened.append _, fun b' hb => ?_⟩
  have there := found_argument (named.alike opened hb) (accepted v' w' sound' marks alike)
  have more := moved ((l.callName ++ (lead ++ v'.text)).reverse ++ b') (by
    rw [← List.append_assoc, ← List.append_assoc, not_name_behind_literal, not_name_behind_literal])
  have shape (x z : Text) : l.callName ++ (lead ++ (x ++ z)) = (l.callName ++ lead) ++ (x ++ z) := by
    simp
  have text : f.text = v.text := by rw [← hf]; rfl
  have size (x y : Text) : Text.size ((l.callName ++ (lead ++ x)).reverse ++ y) =
      y.size + (l.callName ++ lead).size + x.size := by
    simp only [Text.size_append, Text.size_reverse]
    omega
  rw [size, size, ← new, ← text] at more
  rw [here, new, there, shape, shape, ← text, ← new]
  refine .next (l.callName ++ lead) ?_ ?_ ?_ ?_ more
  · rw [← hf]
    rfl
  · rw [new]
    rfl
  · rw [← hf]
    exact ⟨rfl, marks, by simp [Fragment.ofLiteral, marks]⟩
  · rw [new]
    rfl

theorem simulated_passed {blanks gap w : Text} (plain : l.Plain)
    (ih : Simulated l put .code ((l.callName ++ (blanks ++ '(' :: (gap ++ u))).reverse ++ b) w)
    (named : l.Named b (l.callName ++ (blanks ++ '(' :: (gap ++ (u ++ w))))
      (blanks ++ '(' :: (gap ++ (u ++ w))))
    (hb : ∀ c ∈ blanks, isIndent c = true) (hg : ∀ c ∈ gap, isGap c = true) {m : Text}
    (hm : Literal.marks? (u ++ w) = some m)
    (refused : ∀ w', Alike w w' →
      ∃ reason, argument (blanks ++ '(' :: (gap ++ (u ++ w'))) = .error reason)
    (read : ∀ b' w', Alike w w' →
      l.found .literal ⟨b', u ++ w'⟩ = l.found .code ⟨u.reverse ++ b', w'⟩) :
    Simulated l put .code b (l.callName ++ (blanks ++ '(' :: (gap ++ (u ++ w)))) := by
  have shape : l.callName ++ (blanks ++ '(' :: (gap ++ (u ++ w))) =
      (l.callName ++ (blanks ++ '(' :: (gap ++ u))) ++ w := by simp
  obtain ⟨reason, ha⟩ := refused w (.same w)
  rw [shape]
  refine Simulated.move ih (by decide)
    (found_passed plain named hb hg hm ha fun b => read b w (.same w)) fun b' w' alike hb' => ?_
  obtain ⟨reason', ha'⟩ := refused w' alike
  have opened : Alike (blanks ++ '(' :: (gap ++ (u ++ w))) (blanks ++ '(' :: (gap ++ (u ++ w'))) := by
    simpa using alike.append (blanks ++ '(' :: (gap ++ u))
  exact found_passed plain (named.alike opened hb') hb hg ((alike.append u).marks?_of hm) ha'
    fun b => read b w' alike

theorem simulated_call (plain : l.Plain) (named : l.Named b t rest)
    (ih : ∀ p' b' t', Below p' t' .code t → Simulated l put p' b' t') :
    Simulated l put .code b t := by
  obtain ⟨rfl, nonempty, -⟩ := append_of_afterName? named.name
  have pos := List.length_pos_iff.2 nonempty
  rcases argument_cases rest with ⟨blanks, gap, opened, m, rfl, hb, hg, hm⟩ | ⟨reason, refused⟩
  · have some : opened ≠ [] := by
      rintro rfl
      cases hm
    have shorter {u w : Text} (h : opened = u ++ w) :
        w.length < (l.callName ++ (blanks ++ '(' :: (gap ++ opened))).length := by
      rw [h]
      simp only [List.length_append, List.length_cons]
      omega
    cases hr : Literal.read opened with
    | unclosed w =>
      obtain ⟨u, hu, rfl, same⟩ := Literal.read_unclosed_append some hr
      refine simulated_passed plain (ih .code _ w (.inl (shorter rfl))) named hb hg hm
        (fun w' alike => ?_) fun b' w' alike => found_unclosed hu (same w' alike) b'
      refine argument_refused hb hg ((alike.append u).marks?_of hm) fun v z read _ => ?_
      rw [same w' alike] at read
      cases read
    | closed v w =>
      obtain ⟨sound, apart, rfl⟩ := Literal.read_eq_closed_iff.1 hr
      have marks : v.marks = m := Option.some.inj ((Literal.marks?_literal sound.marks w).symm.trans hm)
      subst marks
      by_cases accepted : Literal.marksMeanBytes v.marks = false ∧ closesCall w = true
      · obtain ⟨notBytes, closes⟩ := accepted
        have shape (z : Text) : blanks ++ '(' :: (gap ++ z) = (blanks ++ '(' :: gap) ++ z := by simp
        have behind := ih .code ((l.callName ++ ((blanks ++ '(' :: gap) ++ v.text)).reverse ++ b) w
          (.inl (shorter rfl))
        rw [shape] at named ⊢
        refine simulated_argument behind named (by simp) sound fun v' w' sound' same alike => ?_
        have closes' := alike.closesCall_eq.trans closes
        exact argument_eq_ok_iff.2 ⟨blanks, gap, w', rfl, rfl, hb, hg, sound',
          closesCall_apart closes', by rw [same, notBytes], closes'⟩
      · refine simulated_passed plain (ih .code _ w (.inl (shorter rfl))) named hb hg hm
          (fun w' alike => ?_) fun b' w' alike => found_closed (alike.read_closed hr) b'
        refine argument_refused hb hg ((alike.append v.text).marks?_of hm) fun v' z read closes => ?_
        rw [alike.read_closed hr] at read
        cases read
        cases bytes : Literal.marksMeanBytes v.marks with
        | true => rfl
        | false => exact absurd ⟨bytes, alike.closesCall_eq.symm.trans closes⟩ accepted
  · refine Simulated.move (ih .code _ rest (.inl (by rw [List.length_append]; omega))) (by decide)
      (found_refused named (refused rest (.same _))) fun b' rest' alike hb => ?_
    exact found_refused (named.alike alike hb) (refused rest' alike)

theorem simulated_code (plain : l.Plain)
    (ih : ∀ p' b' t', Below p' t' .code t → Simulated l put p' b' t') :
    Simulated l put .code b t := by
  cases t with
  | nil => exact .nil l put _ b
  | cons c t =>
    have enter (p' : Phase) (hp : p'.rank < Phase.code.rank) :=
      ih p' b (c :: t) (.inr ⟨rfl, hp⟩)
    have next (p' : Phase) := ih p' (c :: b) t (.inl (by simp))
    by_cases line : c = '\n'
    · subst line
      exact Simulated.move (u := ['\n']) (next .lineStart) (by decide) (found_newline l b t)
        fun b' t' _ _ => found_newline l b' t'
    by_cases hash : c = '#'
    · subst hash
      refine Simulated.move (u := []) (enter .comment (by decide)) (by decide) (found_hash l b t)
        fun b' t' alike _ => ?_
      obtain ⟨z, rfl⟩ := alike.exists_cons
      exact found_hash l b' z
    cases quote : isQuote c with
    | true =>
      refine Simulated.move (u := []) (enter .literal (by decide)) (by decide)
        (found_quote quote b t) fun b' t' alike _ => ?_
      obtain ⟨z, rfl⟩ := alike.exists_cons
      exact found_quote quote b' z
    | false =>
    cases name : isNameChar c && !b.head?.any isNameChar with
    | false =>
      exact Simulated.move (u := [c]) (next .code) (by decide) (found_other line hash quote name t)
        fun b' t' _ hb => found_other line hash quote (by rw [hb]; exact name) t'
    | true =>
    simp only [Bool.and_eq_true, Bool.not_eq_true'] at name
    obtain ⟨hc, fresh⟩ := name
    cases marked : (Literal.marks? (c :: t)).any (!·.isEmpty) with
    | true =>
      refine Simulated.move (u := []) (enter .literal (by decide)) (by decide)
        (found_marked hc fresh marked) fun b' t' alike hb => ?_
      have marked' := alike.marks?_eq ▸ marked
      obtain ⟨z, rfl⟩ := alike.exists_cons
      exact found_marked hc (hb.trans fresh) marked'
    | false =>
    cases called : l.afterName? (c :: t) with
    | some rest => exact simulated_call plain ⟨called, by simpa using hc, fresh, marked⟩ ih
    | none =>
      obtain ⟨u, w, rfl, inside, stop⟩ := Text.exists_takeWhile isNameChar t
      have shorter : w.length < (c :: (u ++ w)).length := by
        simp only [List.length_cons, List.length_append]
        omega
      refine Simulated.move (u := c :: u) (ih .code _ w (.inl shorter)) (by decide)
        (found_name inside hc stop fresh marked called) fun b' w' alike hb => ?_
      have opened : Alike (c :: (u ++ w)) (c :: (u ++ w')) := alike.append (c :: u)
      exact found_name inside hc (by rw [alike.head?_eq]; exact stop) (hb.trans fresh)
        (opened.marks?_eq ▸ marked) (opened.afterName?_none plain.name called)

/-- Whether a line goes on does not depend on a carriage return behind it. -/
theorem continuesBlock_return (y : Text) :
    l.continuesBlock (y ++ ['\r']) = l.continuesBlock y := by
  have marker : l.isMarkerLine (y ++ ['\r']) = l.isMarkerLine y := by
    rw [isMarkerLine, isMarkerLine, Text.trim_concat y (by decide)]
  rw [continuesBlock, Text.isBlankLine_return, marker, continuesBlock]

theorem lines_return {x : Text} :
    (∀ y ∈ Text.lines (x ++ ['\r']), l.continuesBlock y = true) ↔
      ∀ y ∈ Text.lines x, l.continuesBlock y = true := by
  refine Text.forall_lines_concat (by decide) (fun y => ?_) x
  rw [continuesBlock_return]

/-- Lines without the carriage return that may stand behind them. -/
theorem withoutReturn_cases (x : Text) :
    x = withoutReturn x ++ ['\r'] ∨ x = withoutReturn x ∧ x.getLast? ≠ some '\r' := by
  unfold withoutReturn
  split
  · next h =>
    left
    have some : x ≠ [] := by
      rintro rfl
      cases h
    have last : x.getLast some = '\r' := by
      rw [List.getLast?_eq_some_getLast some] at h
      exact Option.some.inj h
    rw [← last, List.dropLast_concat_getLast]
  · next h => exact .inr ⟨rfl, h⟩

/-- The lines of a block, with or without a carriage return behind them, can be replaced. -/
theorem exists_block_lines {x : Text} {f : Fragment} (n : Nat)
    (hx : ∀ y ∈ Text.lines x, l.continuesBlock y = true) (hf : f = .ofBlock n (withoutReturn x))
    (fits : Fits l f (put f)) :
    ∃ cr, x = withoutReturn x ++ cr ∧ withoutReturn (put f ++ cr) = put f ∧
      ∀ y ∈ Text.lines (put f ++ cr), l.continuesBlock y = true := by
  subst hf
  generalize put _ = new at fits
  have dropped (y : Text) : withoutReturn (y ++ ['\r']) = y := by simp [withoutReturn]
  cases fits with
  | literal kind => cases kind
  | own =>
    rcases withoutReturn_cases x with h | ⟨h, last⟩
    · exact ⟨['\r'], h, dropped _, by rw [Fragment.text_ofBlock, ← h]; exact hx⟩
    · refine ⟨[], by simpa using h, ?_, ?_⟩
      · rw [Fragment.text_ofBlock, List.append_nil, ← h]
        exact h.symm
      · rw [Fragment.text_ofBlock, List.append_nil, ← h]
        exact hx
  | lines _ body ends =>
    rcases withoutReturn_cases x with h | ⟨h, last⟩
    · exact ⟨['\r'], h, dropped _, lines_return.2 body⟩
    · exact ⟨[], by simpa using h, by simp [withoutReturn, ends], by simpa using body⟩

/-- A block with the blank lines before it and what closes it. -/
theorem moved_block {b' x cr new nl rest' : Text} {fs fs' : List Fragment} (gap : Text)
    (hx : x = withoutReturn x ++ cr)
    (hnew : put (.ofBlock (b.size + gap.size) (withoutReturn x)) = new)
    (more : Moved put (Text.size ((gap ++ (x ++ nl)).reverse ++ b)) rest fs
      (Text.size ((gap ++ (new ++ cr ++ nl)).reverse ++ b')) rest' fs') :
    Moved put b.size (gap ++ (x ++ (nl ++ rest)))
      (.ofBlock (b.size + gap.size) (withoutReturn x) :: fs)
      b'.size (gap ++ (new ++ cr ++ (nl ++ rest'))) (.ofBlock (b'.size + gap.size) new :: fs') := by
  generalize withoutReturn x = raw at *
  subst hx
  have whole (y z : Text) : gap ++ (y ++ cr ++ (nl ++ z)) = gap ++ (y ++ ((cr ++ nl) ++ z)) := by simp
  have size (y d : Text) : Text.size ((gap ++ (y ++ cr ++ nl)).reverse ++ d) =
      d.size + gap.size + y.size + (cr ++ nl).size := by
    simp only [Text.size_append, Text.size_reverse]
    omega
  rw [size, size, ← hnew] at more
  rw [whole, whole, ← hnew]
  exact Moved.next (f := .ofBlock (b.size + gap.size) raw) gap rfl rfl ⟨rfl, rfl, rfl⟩ rfl
    (more.prepend (cr ++ nl))

theorem simulated_block (plain : l.Plain)
    (ih : ∀ p' b' t', Below p' t' .block t → Simulated l put p' b' t') :
    Simulated l put .block b t := by
  rcases block_cases l t with blank | ⟨ls, w, rfl, hl, solid, stop⟩ | ⟨ls, x, tail, rfl, hl, hx, stop⟩
  · exact .of_nothing (found_blankRest blank)
  · have shorter : (Text.written ls ++ w).length = w.length + (Text.written ls).length := by
      simp [Nat.add_comm]
    refine Simulated.move (ih .lineStart _ w ?_) (by decide) (found_emptyBlock hl solid stop b)
      fun b' w' alike _ => ?_
    · cases ls with
      | nil => exact .inr ⟨rfl, by decide⟩
      | cons y ls =>
        refine .inl ?_
        simp [Text.written]
        omega
    · have same := plain.continuesBlock_alike alike stop
      exact found_emptyBlock hl (by rw [same]; exact solid) (by rw [same]; exact stop) b'
  · intro fits
    rw [found_block hl hx stop] at fits
    obtain ⟨cr, old, new, body⟩ := exists_block_lines _ hx rfl (fits _ List.mem_cons_self)
    generalize hput : put (.ofBlock (b.size + (Text.written ls).size) (withoutReturn x)) = y at new body
    rcases stop with rfl | ⟨w, rfl, stop⟩
    · refine ⟨Text.written ls ++ (y ++ cr ++ []), fun h => absurd rfl h, fun b' _ => ?_⟩
      have ends : Moved put (Text.size ((Text.written ls ++ (x ++ [])).reverse ++ b)) [] []
          (Text.size ((Text.written ls ++ (y ++ cr ++ [])).reverse ++ b')) [] [] := .rest _ _ _
      rw [found_block hl hx (.inl rfl), found_block hl body (.inl rfl), new]
      simpa using moved_block _ old hput ends
    · have shorter : w.length < (Text.written ls ++ (x ++ '\n' :: w)).length := by
        simp only [List.length_append, List.length_cons]
        omega
      obtain ⟨w', alike, moved⟩ := ih .lineStart ((Text.written ls ++ (x ++ ['\n'])).reverse ++ b) w
        (.inl shorter) fun f hf => fits f (List.mem_cons_of_mem _ hf)
      have alike := alike (by decide)
      have stop' : l.continuesBlock (line w') = false := by
        rw [plain.continuesBlock_alike alike stop]
        exact stop
      refine ⟨Text.written ls ++ (y ++ cr ++ (['\n'] ++ w')), fun h => absurd rfl h,
        fun b' _ => ?_⟩
      have there := found_block hl body (.inr ⟨w', rfl, stop'⟩) b'
      rw [new] at there
      have more := moved ((Text.written ls ++ (y ++ cr ++ ['\n'])).reverse ++ b') (by simp)
      have goal := moved_block _ old hput more
      rw [found_block hl hx (.inr ⟨w, rfl, stop⟩)]
      exact there ▸ goal

end Phases

/-- Every place of a run has a text whose run follows: by induction on the text ahead and, where a
step does not move, on the rank of the phase. -/
theorem simulated (plain : l.Plain) (put : Fragment → Text) (p : Phase) (b t : Text) :
    Simulated l put p b t := by
  have ih : ∀ p' b' t', Below p' t' p t → Simulated l put p' b' t' := fun p' b' t' below =>
    simulated plain put p' b' t'
  cases p with
  | lineStart => exact simulated_lineStart plain ih
  | code => exact simulated_code plain ih
  | comment => exact simulated_comment ih
  | literal => exact simulated_literal ih
  | block => exact simulated_block plain ih
termination_by (t.length, p.rank)
decreasing_by
  rcases below with shorter | ⟨same, lower⟩
  · exact .left _ _ shorter
  · rw [same]
    exact .right _ lower

end Locator

/-- Texts that fit can be put in place of the fragments that are found in a text. In the new text the
same fragments are found, each behind the same gap. -/
theorem exists_moved {l : Locator} (plain : l.Plain) {put : Fragment → Text} {t : Text}
    (fits : ∀ f ∈ l.locate t, Fits l f (put f)) :
    ∃ t', Moved put 0 t (l.locate t) 0 t' (l.locate t') := by
  simp only [Locator.locate_eq_found] at fits ⊢
  obtain ⟨t', -, moved⟩ := Locator.simulated plain put .lineStart [] t fits
  exact ⟨t', moved [] rfl⟩

end HostSql
