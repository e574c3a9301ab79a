import HostSql.Proofs.Host.Shape
import HostSql.Proofs.Mask.Unmask
import HostSql.Proofs.Placement
import HostSql.Proofs.Text.Holds

/-! The expressions of an interpolated literal come out of a replacement as they went in. A formatter
may put their identifiers in any order and anything around them; each expression stands unbroken in
the new literal where its identifier was left. -/
namespace HostSql
open Layout (Line)
open Text (Ended Holds)

namespace Mask
variable {raw lead : Text} {m : Masked} {p : Placeholder} {ps : List (Placeholder × Text)}

theorem holds_write (lead : Text) (ps : List (Placeholder × Text)) :
    Holds (ps.map (·.1.expression)) (write (·.expression) lead ps) := by
  induction ps generalizing lead with
  | nil => exact .none _
  | cons x ps ih =>
    obtain ⟨p, t⟩ := x
    rw [write_cons]
    exact .next lead (ih t)

theorem ended_expression (h : mask raw = some m) (hp : p ∈ m.placeholders) : Ended p.expression := by
  rw [(mask_spec h).2.1] at hp
  obtain ⟨x, hx, rfl⟩ := List.mem_map.1 hp
  exact ended_pieces raw x hx

end Mask

namespace Replacement
variable {es : List Text} {ess : List (List Text)} {ls : List Line} {d : Dialect}
  {masked sql newline : Text} {c : Config} {buffer new : Text} {f : Fragment} {q : Quote}

section Lines

theorem holds_settle (ended : ∀ es ∈ ess, ∀ e ∈ es, Ended e)
    (h : List.Forall₂ Holds ess (ls.map (·.text))) :
    List.Forall₂ Holds ess ((settle ls).map (·.text)) := by
  induction ls generalizing ess with
  | nil => exact h
  | cons l ls ih =>
    cases h with
    | cons here more =>
      obtain ⟨first, rest⟩ := List.forall_mem_cons.1 ended
      obtain ⟨l', settled, -, text, -⟩ := settle_cons l ls
      rw [settled, List.map_cons]
      refine .cons ?_ (ih rest more)
      rcases text with same | trimmed
      · rw [same]
        exact here
      · rw [trimmed]
        exact here.trimEnd first

/-- A last line that holds nothing has no expression on it. -/
theorem holds_withoutEmptyLast (filled : ∀ es ∈ ess, ∀ e ∈ es, e ≠ [])
    (h : List.Forall₂ Holds ess (ls.map (·.text))) :
    ∃ ess', ess'.flatten = ess.flatten ∧ (∀ es ∈ ess', es ∈ ess) ∧
      List.Forall₂ Holds ess' ((withoutEmptyLast ls).map (·.text)) := by
  unfold withoutEmptyLast
  split
  · next l last =>
    by_cases empty : (l.text.isEmpty && !l.continued) = true
    · rw [if_pos empty]
      obtain ⟨init, rfl⟩ := List.getLast?_eq_some_iff.1 last
      rw [List.map_append] at h
      have before := List.forall₂_take_append _ _ _ h
      have behind := List.forall₂_drop_append _ _ _ h
      have parts := List.take_append_drop (init.map (·.text)).length ess
      generalize ess.take (init.map (·.text)).length = first at *
      generalize ess.drop (init.map (·.text)).length = final at *
      cases behind with
      | @cons es _ final _ held none =>
        cases none
        rw [← parts] at filled
        have nothing : l.text = [] := by
          simp only [Bool.and_eq_true, List.isEmpty_iff] at empty
          exact empty.1
        have gone : es = [] := by
          apply Holds.eq_nil (filled es (by simp))
          rw [← nothing]
          exact held
        refine ⟨first, ?_, ?_, ?_⟩
        · rw [← parts, gone]
          simp
        · intro es hes
          rw [← parts]
          exact List.mem_append_left _ hes
        · rw [List.dropLast_concat]
          exact before
    · rw [if_neg empty]
      exact ⟨ess, rfl, fun _ hes => hes, h⟩
  · exact ⟨ess, rfl, fun _ hes => hes, h⟩

theorem holds_joinLines (newline pad : Text) (h : List.Forall₂ Holds ess (ls.map (·.text))) :
    Holds ess.flatten (joinLines newline (padded pad) ls) := by
  have put {es : List Text} {l : Line} (held : Holds es l.text) : Holds es (padded pad l) := by
    unfold padded
    split
    · exact held.prepend pad
    · exact held
  induction ls generalizing ess with
  | nil =>
    cases h
    exact .none _
  | cons l ls ih =>
    cases h with
    | @cons es _ ess _ here more =>
      cases ls with
      | nil =>
        cases more
        simpa [joinLines] using put here
      | cons next ls =>
        rw [joinLines_cons, List.flatten_cons]
        exact (put here).append ((ih more).prepend _)

/-- The lines that a text is laid out on hold what the text does. -/
theorem holds_sqlLines (flat : ∀ e ∈ es, '\n' ∉ e) (ended : ∀ e ∈ es, Ended e) (h : Holds es sql)
    (hs : sqlLines d masked sql = some ls) :
    ∃ ess, es = ess.flatten ∧ List.Forall₂ Holds ess ((settle ls).map (·.text)) := by
  obtain ⟨ess, rfl, each⟩ := h.exists_lines flat
  have ends : ∀ es ∈ ess, ∀ e ∈ es, Ended e := fun es hes e he =>
    ended e (List.mem_flatten.2 ⟨es, hes, he⟩)
  have filled : ∀ es ∈ ess, ∀ e ∈ es, e ≠ [] := by
    rintro es hes e he rfl
    obtain ⟨c, last, -⟩ := ends es hes _ he
    cases last
  obtain ⟨all, texts, rfl⟩ := exists_lines_of_sqlLines hs
  rw [← texts] at each
  obtain ⟨kept, same, among, held⟩ := holds_withoutEmptyLast filled each
  refine ⟨kept, same.symm, holds_settle (fun es hes => ends es (among es hes)) held⟩

end Lines

/-- Between its new delimiters a literal holds what the unmasked text does. -/
theorem holds_delimit (h : Holds es sql) (ended : ∀ e ∈ es, Ended e)
    (flat : ∀ ls, sqlLines (Dialect.ofName c.dialect) masked sql = some ls → ∀ e ∈ es, '\n' ∉ e)
    (placed : delimit c buffer f q masked sql = .ok new) :
    (∀ e ∈ es, '\n' ∉ e) ∧
      ∃ (q' : Quote) (body : Text), q'.fits body = true ∧ new = wrap f.marks q' body ∧ Holds es body := by
  obtain ⟨q', body, fits, rfl, ⟨oneLine, rfl⟩ | ⟨-, ls, lines, rfl⟩⟩ := delimit_cases placed
  · exact ⟨fun e he line => oneLine (h.subset he line), q', body, fits, rfl, h⟩
  · have flat := flat ls lines
    obtain ⟨ess, rfl, each⟩ := holds_sqlLines flat ended h lines
    refine ⟨flat, q', _, fits, rfl, ?_⟩
    have joined := holds_joinLines (lineBreak buffer f.span.stop)
      (lineIndent buffer f.span.start ++ List.replicate c.indent ' ') each
    exact ((joined.prepend _).concat _).concat _

end Replacement

section
variable {format : Formatter} {c : Config} {l : Locator} {buffer new : Text} {f : Fragment} {m : Masked}

/-- Whenever an interpolated literal that was located is replaced, no expression in it has a line
break, the formatter has left the identifiers apart from each other in some order, and the new
literal reads back with the expressions in its body, whole and in that order. -/
theorem replacement_keeps_expressions (located : f ∈ l.locate buffer)
    (interpolated : f.interpolated = true) (masked : mask f.raw = some m)
    (replaced : replacement format c buffer f = .ok new) :
    (∀ p ∈ m.placeholders, '\n' ∉ p.expression) ∧
      ∃ formatted lead ps u, format c m.text = .ok formatted ∧
        formatted = Mask.write (·.token) lead ps ∧ Mask.InPlace lead ps ∧
        (ps.map (·.1)).Perm m.placeholders ∧
        Literal.read new = .closed u [] ∧ u.marks = f.marks ∧
        Holds (ps.map (·.1.expression)) u.body := by
  obtain ⟨m', formatted, sql, hm, formats, back, placed, -⟩ := replacement_eq_ok_iff.1 replaced
  rw [Replacement.masked, if_pos interpolated, masked] at hm
  cases hm
  have named : ∀ p ∈ m.placeholders, ∃ n, p.token = Mask.token n := fun p hp =>
    Mask.token_of_mem masked hp
  have tokens : ∀ p ∈ m.placeholders, p.token ≠ [] := fun p hp => by
    obtain ⟨n, hn⟩ := named p hp
    exact hn ▸ Mask.token_ne_nil n
  obtain ⟨lead, ps, rfl, rfl, perm, own⟩ := Mask.exists_write_of_unmask tokens back
  have among : ∀ x ∈ ps, x.1 ∈ m.placeholders := fun x hx => perm.subset (List.mem_map_of_mem hx)
  have ended : ∀ e ∈ ps.map (·.1.expression), Ended e := by
    intro e he
    obtain ⟨x, hx, rfl⟩ := List.mem_map.1 he
    exact Mask.ended_expression masked (among x hx)
  cases Locator.shaped_of_locate located with
  | block => cases interpolated
  | @literal n v sound =>
    have flat : ∀ ls, Replacement.sqlLines (Dialect.ofName c.dialect) (Mask.write (·.token) lead ps)
        (Mask.write (·.expression) lead ps) = some ls → ∀ e ∈ ps.map (·.1.expression), '\n' ∉ e := by
      intro ls lines e he
      obtain ⟨x, hx, rfl⟩ := List.mem_map.1 he
      have count := Nat.le_of_eq (Replacement.count_of_sqlLines lines)
      exact Mask.flat_of_count (fun y hy => named _ (among y hy)) count x hx
    obtain ⟨inLine, q, body, fits, rfl, held⟩ :=
      Replacement.holds_delimit (Mask.holds_write lead ps) ended flat placed
    refine ⟨fun p hp => ?_, _, lead, ps, ⟨v.marks, q, body⟩, formats, rfl, own, perm, ?_, rfl, held⟩
    · obtain ⟨x, hx, rfl⟩ := List.mem_map.1 (perm.mem_iff.2 hp)
      exact inLine _ (List.mem_map_of_mem hx)
    · apply Literal.read_eq_closed_iff.2
      exact ⟨⟨sound.marks, Quote.fits_iff.1 fits⟩, fun _ _ => by simp, (List.append_nil _).symm⟩

end

/-- A call with two expressions. -/
def twoExpressions : Fragment := .ofLiteral 4 ⟨['f'], .double, "{a} {b}".toList⟩

/-- A formatter that puts the identifiers the other way round, on lines of their own. -/
def exchanging : Formatter := .constant "SELECT __ESQL_MASK_1__\nFROM __ESQL_MASK_0__".toList

/-- The expressions follow their identifiers. -/
theorem replacement_keeps_expressions_exchanged :
    ∃ m, mask twoExpressions.raw = some m ∧
      m.placeholders.map (·.expression) = ["{a}".toList, "{b}".toList] ∧
      replacement exchanging {} "sql(f\"{a} {b}\")".toList twoExpressions =
        .ok "f\"\"\"\n    SELECT {b}\n    FROM {a}\n\"\"\"".toList ∧
      ∃ (ps : List (Placeholder × Text)) (u : Literal), (ps.map (·.1)).Perm m.placeholders ∧
        Literal.read "f\"\"\"\n    SELECT {b}\n    FROM {a}\n\"\"\"".toList = .closed u [] ∧
        Holds (ps.map (·.1.expression)) u.body := by
  have located : twoExpressions ∈ (Locator.ofConfig {}).locate "sql(f\"{a} {b}\")".toList := by
    have all : (Locator.ofConfig {}).locate "sql(f\"{a} {b}\")".toList = [twoExpressions] := by
      with_unfolding_all decide
    rw [all]
    exact List.mem_singleton_self _
  have masked : mask twoExpressions.raw = some ⟨"__ESQL_MASK_0__ __ESQL_MASK_1__".toList,
      [⟨"__ESQL_MASK_0__".toList, "{a}".toList⟩, ⟨"__ESQL_MASK_1__".toList, "{b}".toList⟩]⟩ := by
    with_unfolding_all decide
  have back : unmask "SELECT __ESQL_MASK_1__\nFROM __ESQL_MASK_0__".toList
      [⟨"__ESQL_MASK_0__".toList, "{a}".toList⟩, ⟨"__ESQL_MASK_1__".toList, "{b}".toList⟩] =
        some "SELECT {b}\nFROM {a}".toList :=
    (Mask.unmask_perm (.swap _ _ _) (by decide) (by decide)).trans
      ((Mask.unmask_of_ascending (by decide) (by decide)).trans (by decide))
  have replaced : replacement exchanging {} "sql(f\"{a} {b}\")".toList twoExpressions =
      .ok "f\"\"\"\n    SELECT {b}\n    FROM {a}\n\"\"\"".toList :=
    replacement_eq_ok_iff.2 ⟨_, _, _, masked, rfl, back, by with_unfolding_all decide, by decide⟩
  obtain ⟨-, formatted, lead, ps, u, -, -, -, perm, read, -, held⟩ :=
    replacement_keeps_expressions located rfl masked replaced
  exact ⟨_, masked, rfl, replaced, ps, u, perm, read, held⟩

end HostSql
