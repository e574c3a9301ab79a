import HostSql.Proofs.Text.Lines
import Mathlib.Data.List.Forall2

/-! Texts that stand in another text one behind the other. They stay there, in their order, when the
text is cut into lines, when blanks at the ends of lines are dropped, and when the lines are put
together again, as long as none of them reaches over a line break or ends with a blank. -/
namespace HostSql.Text

/-- The texts `es` stand in a text in this order, each behind the end of the one before it. -/
inductive Holds : List Text → Text → Prop
  | none (t : Text) : Holds [] t
  | next (gap : Text) {e t : Text} {es : List Text} (more : Holds es t) :
      Holds (e :: es) (gap ++ (e ++ t))

variable {e t u l : Text} {es es' : List Text}

namespace Holds

theorem prepend (u : Text) (h : Holds es t) : Holds es (u ++ t) := by
  cases h with
  | none => exact .none _
  | next gap more =>
    rw [← List.append_assoc]
    exact .next (u ++ gap) more

theorem append (h : Holds es t) (h' : Holds es' u) : Holds (es ++ es') (t ++ u) := by
  induction h with
  | none t => exact h'.prepend t
  | next gap more ih =>
    rw [List.cons_append, List.append_assoc, List.append_assoc]
    exact .next gap ih

theorem concat (h : Holds es t) (u : Text) : Holds es (t ++ u) := by
  have more := h.append (.none u)
  rwa [List.append_nil] at more

theorem subset (h : Holds es t) (he : e ∈ es) : e ⊆ t := by
  induction h with
  | none => cases he
  | next gap more ih =>
    intro c hc
    apply List.mem_append_right
    rcases List.mem_cons.1 he with rfl | he
    · exact List.mem_append_left _ hc
    · exact List.mem_append_right _ (ih he hc)

/-- Texts without line breaks stand before the line break or behind it. -/
theorem split (flat : ∀ e ∈ es, '\n' ∉ e) (h : Holds es (l ++ '\n' :: u)) :
    ∃ before after, es = before ++ after ∧ Holds before l ∧ Holds after u := by
  generalize hx : l ++ '\n' :: u = x at h
  induction h generalizing l with
  | none => exact ⟨[], [], rfl, .none _, .none _⟩
  | @next gap e t es more ih =>
    by_cases inside : gap.length ≤ l.length
    · obtain ⟨w, rfl, hw⟩ := exists_append_of_length_le hx.symm inside
      obtain ⟨here, later⟩ := List.forall_mem_cons.1 flat
      by_cases whole : e.length ≤ w.length
      · obtain ⟨z, rfl, hz⟩ := exists_append_of_length_le hw whole
        obtain ⟨before, after, rfl, first, rest⟩ := ih later hz.symm
        exact ⟨e :: before, after, rfl, .next gap first, rest⟩
      · obtain ⟨z, he, hz⟩ := exists_append_of_length_le hw.symm (by omega)
        cases z with
        | nil =>
          rw [he, List.append_nil] at whole
          exact absurd (Nat.le_refl _) whole
        | cons c z =>
          rw [(List.cons.inj hz).1.symm] at he
          apply absurd _ here
          simp [he]
    · obtain ⟨z, rfl, hz⟩ := exists_append_of_length_le hx (by omega)
      cases z with
      | nil =>
        apply absurd _ inside
        simp
      | cons c z =>
        obtain ⟨rfl, rfl⟩ := List.cons.inj hz
        exact ⟨[], e :: es, rfl, .none _, .next z more⟩

/-- Each line holds some of them, and together the lines hold all. -/
theorem exists_lines {es : List Text} {t : Text} (flat : ∀ e ∈ es, '\n' ∉ e) (h : Holds es t) :
    ∃ ess, es = ess.flatten ∧ List.Forall₂ Holds ess t.lines := by
  rcases lines_cases t with ⟨one, -⟩ | ⟨l, u, -, rfl, more⟩
  · rw [one]
    exact ⟨[es], by simp, .cons h .nil⟩
  · obtain ⟨before, after, rfl, first, rest⟩ := h.split flat
    have flat' : ∀ e ∈ after, '\n' ∉ e := fun e he => flat e (List.mem_append_right _ he)
    obtain ⟨ess, rfl, each⟩ := exists_lines flat' rest
    rw [more]
    exact ⟨before :: ess, rfl, .cons first each⟩
termination_by t.length
decreasing_by simp_all; omega

theorem eq_nil (filled : ∀ e ∈ es, e ≠ []) (h : Holds es []) : es = [] := by
  generalize hx : ([] : Text) = x at h
  cases h with
  | none => rfl
  | @next gap e t es more =>
    have empty : e = [] := by
      have none := List.append_eq_nil_iff.1 hx.symm
      exact (List.append_eq_nil_iff.1 none.2).1
    exact absurd empty (filled e List.mem_cons_self)

end Holds

/-- Blanks are dropped behind the last character that is none. -/
theorem trimEnd_append_of_ended (ended : Ended u) (t : Text) : trimEnd (u ++ t) = u ++ trimEnd t := by
  obtain ⟨c, last, solid⟩ := ended
  obtain ⟨init, rfl⟩ := List.getLast?_eq_some_iff.1 last
  have kept : (init ++ [c]).reverse.dropWhile isBlank = (init ++ [c]).reverse := by
    rw [List.reverse_concat, List.dropWhile_cons_of_neg (by simp [solid])]
  rw [trimEnd, dropTrailing, List.reverse_append, List.dropWhile_append, kept]
  by_cases blank : (t.reverse.dropWhile isBlank).isEmpty = true
  · rw [if_pos blank, trimEnd, dropTrailing, List.isEmpty_iff.1 blank]
    simp
  · rw [if_neg blank, List.reverse_append, List.reverse_reverse, trimEnd, dropTrailing]

theorem Ended.prepend (h : Ended e) (u : Text) : Ended (u ++ e) := by
  obtain ⟨c, last, solid⟩ := h
  refine ⟨c, ?_, solid⟩
  rw [List.getLast?_append, last]
  rfl

theorem Holds.trimEnd (ended : ∀ e ∈ es, Ended e) (h : Holds es t) : Holds es t.trimEnd := by
  induction h with
  | none => exact .none _
  | @next gap e t es more ih =>
    obtain ⟨here, later⟩ := List.forall_mem_cons.1 ended
    rw [← List.append_assoc, trimEnd_append_of_ended (here.prepend gap), List.append_assoc]
    exact .next gap (ih later)

/-- Blanks behind a text have no part in what ends with a character. -/
theorem infix_of_append_blanks {g : Text} (ended : Ended t) (hg : ∀ c ∈ g, isBlank c = true) (h : t <:+: u ++ g) :
    t <:+: u := by
  obtain ⟨x, z, whole⟩ := h
  obtain ⟨c, last, solid⟩ := ended
  obtain ⟨y, rfl⟩ := List.getLast?_eq_some_iff.1 last
  by_cases inside : (x ++ (y ++ [c])).length ≤ u.length
  · obtain ⟨w, rfl, -⟩ := exists_append_of_length_le whole inside
    exact ⟨x, w, rfl⟩
  · have blank : c ∈ g := by
      have cut : (x ++ y) ++ c :: z = u ++ g := by
        rw [← whole]
        simp
      obtain ⟨w, -, rest⟩ := exists_append_of_length_le cut.symm (by
        simp only [List.length_append, List.length_singleton] at inside ⊢
        omega)
      rw [rest]
      simp
    rw [hg c blank] at solid
    cases solid

/-- The first and the last character are not blank. -/
structure Trimmed (t : Text) : Prop where
  starts : ∃ c, t.head? = some c ∧ isBlank c = false
  ends : Ended t

end HostSql.Text
