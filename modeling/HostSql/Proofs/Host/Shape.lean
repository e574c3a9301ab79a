import HostSql.Proofs.Host.Relocation
import HostSql.Proofs.Host.Steps

/-! What is found is a literal that can be read, or lines none of which ends a block. -/
namespace HostSql

/-- Fragments as they are found. -/
inductive Shaped (l : Locator) : Fragment → Prop
  | literal (n : Nat) {u : Literal} (sound : u.Sound) : Shaped l (.ofLiteral n u)
  | block (n : Nat) {x : Text} (body : ∀ y ∈ Text.lines x, l.continuesBlock y = true) :
      Shaped l (.ofBlock n x)

namespace Locator
variable {l : Locator} {p : Phase} {k : Cursor} {f : Fragment} {t : Text}

theorem lines_withoutReturn {x : Text} (h : ∀ y ∈ Text.lines x, l.continuesBlock y = true) :
    ∀ y ∈ Text.lines (withoutReturn x), l.continuesBlock y = true := by
  rcases withoutReturn_cases x with hx | ⟨hx, -⟩
  · rw [hx] at h
    exact lines_return.1 h
  · rwa [← hx]

/-- What a step finds from a place with `b` behind it: the argument of a call, or the lines of a
block. -/
inductive Finds (l : Locator) (b : Text) : Phase → Text → Fragment → Prop
  | argument {gap w : Text} {u : Literal} (accepted : argument (gap ++ (u.text ++ w)) = .ok (gap, u)) :
      Finds l b .code (l.callName ++ (gap ++ (u.text ++ w)))
        (.ofLiteral (Text.size b + Text.size (l.callName ++ gap)) u)
  | block {ls : List Text} {x tail : Text}
      (blank : ∀ y ∈ ls, Text.isBlankLine y = true ∧ '\n' ∉ y)
      (body : ∀ y ∈ Text.lines x, l.continuesBlock y = true)
      (stop : tail = [] ∨ ∃ t, tail = '\n' :: t ∧ l.continuesBlock (line t) = false) :
      Finds l b .block (Text.written ls ++ (x ++ tail))
        (.ofBlock (Text.size b + Text.size (Text.written ls)) (withoutReturn x))

theorem finds_of_steps {b : Text} {s : Step} (h : Steps l b p t s)
    (found : s.found = some (.fragment f)) : Finds l b p t f := by
  cases h with
  | argument _ accepted =>
    cases found
    exact .argument accepted
  | refused =>
    dsimp only at found
    split at found <;> cases found
  | block blank body stop =>
    cases found
    exact .block blank body stop
  | _ => cases found

theorem Finds.shaped {b : Text} (h : Finds l b p t f) : Shaped l f := by
  cases h with
  | argument accepted =>
    obtain ⟨-, -, -, -, -, -, -, sound, -⟩ := argument_eq_ok_iff.1 accepted
    exact .literal _ sound
  | block _ body => exact .block _ (lines_withoutReturn body)

section Run
variable {P : Phase → Cursor → Prop}

theorem exists_step_of_run
    (kept : ∀ p k, P p k → k.ahead ≠ [] → P (l.step p k).phase (l.step p k).cursor) (holds : P p k)
    (h : .fragment f ∈ l.run p k) :
    ∃ p k, P p k ∧ k.ahead ≠ [] ∧ (l.step p k).found = some (.fragment f) := by
  fun_induction run l p k with
  | case1 => cases h
  | case2 p k more s ih =>
    rcases List.mem_append.1 h with here | later
    · exact ⟨p, k, holds, more, Option.mem_toList.1 here⟩
    · exact ih (kept p k holds more) later

/-- A fragment is found by one of the steps that the run takes. What holds in the beginning and is kept
by every step holds there. -/
theorem exists_finds
    (kept : ∀ p k, P p k → k.ahead ≠ [] → P (l.step p k).phase (l.step p k).cursor)
    (start : P .lineStart (.atStart t)) (h : f ∈ l.locate t) :
    ∃ p k, P p k ∧ k.ahead ≠ [] ∧ Finds l k.behind p k.ahead f := by
  obtain ⟨x, hx, hf⟩ := List.mem_filterMap.1 h
  cases x with
  | fragment g =>
    cases hf
    obtain ⟨p, k, holds, more, found⟩ := exists_step_of_run kept start hx
    exact ⟨p, k, holds, more, finds_of_steps (steps_step l p k.behind more) found⟩
  | refused => cases hf

end Run

theorem shaped_of_locate (h : f ∈ l.locate t) : Shaped l f := by
  obtain ⟨_, _, -, -, finds⟩ := exists_finds (P := fun _ _ => True) (fun _ _ _ _ => trivial) trivial h
  exact finds.shaped

end Locator

namespace Fragment
variable {l : Locator} {f : Fragment} {q : Quote} {marks body : Text}

/-- A call that covers a literal is that literal. -/
theorem eq_of_literal (h : Shaped l f) (kind : f.kind = .call) (sound : Literal.Sound ⟨marks, q, body⟩)
    (text : f.text = (⟨marks, q, body⟩ : Literal).text) : f.quote = some q ∧ f.raw = body := by
  cases h with
  | block => cases kind
  | @literal n u sound' =>
    have alone (v : Literal) : v.Apart [] := fun _ _ => by simp
    obtain ⟨rfl, -⟩ := Literal.text_append_inj sound' sound (alone u) (alone _) (congrArg (· ++ []) text)
    exact ⟨rfl, rfl⟩

end Fragment
end HostSql
