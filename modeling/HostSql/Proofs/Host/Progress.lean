import HostSql.Proofs.Host.Places
import Mathlib.Data.Nat.Find

/-! How a run comes to the end of its text. A step that does not move enters a lower phase, and the lowest
phases always move. So no four steps stay at one place, and there are at most four for each byte. -/
namespace HostSql.Locator

/-- The phase and the place of the run over `t` after `n` steps. -/
def stage (l : Locator) (t : Text) : Nat → Phase × Cursor
  | 0 => (.lineStart, .atStart t)
  | n + 1 =>
    let s := l.step (l.stage t n).1 (l.stage t n).2
    (s.phase, s.cursor)

/-- How many bytes lie behind the run over `t` after `n` steps. -/
def position (l : Locator) (t : Text) (n : Nat) : Nat := (l.stage t n).2.offset

/-- What the run over `t` finds in the step after the first `n`. -/
def foundAfter (l : Locator) (t : Text) (n : Nat) : Option Finding :=
  (l.step (l.stage t n).1 (l.stage t n).2).found

/-- What a step from a place does: it moves on, if at all, and not past the end of the text. -/
structure Proceeds (p : Phase) (k : Cursor) (p' : Phase) (k' : Cursor) : Prop where
  forward : k.offset ≤ k'.offset
  whole : k'.offset + k'.ahead.size = k.offset + k.ahead.size
  lower : k'.offset = k.offset → p'.rank < p.rank

variable {l : Locator} {t : Text} {p p' : Phase} {k k' : Cursor} {i n : Nat}

theorem step_proceeds (l : Locator) (p : Phase) (k : Cursor) (more : k.ahead ≠ []) :
    Proceeds p k (l.step p k).phase (l.step p k).cursor := by
  obtain ⟨u, passes, -⟩ := passes_of_steps (steps_step l p k.behind more)
  have offset : (l.step p k).cursor.offset = k.offset + u.size := passes.offset
  have ahead : k.ahead = u ++ (l.step p k).cursor.ahead := passes.ahead
  have sizes := congrArg Text.size ahead
  rw [Text.size_append] at sizes
  refine ⟨by omega, by omega, fun stays => ?_⟩
  have nothing : u = [] := Text.eq_nil_of_size (by omega)
  have same : (l.step p k).cursor.ahead.length = k.ahead.length := by rw [ahead, nothing, List.nil_append]
  -- The measure of the run decreases, and its first part does not.
  cases Prod.lex_def.1 (step_decreases l p k more) with
  | inl shorter => exact absurd same (Nat.ne_of_lt shorter)
  | inr rank => exact rank.2

/-- Comments and literals have no lower phase to enter. -/
theorem Proceeds.moves (h : Proceeds p k p' k') (lowest : p = .comment ∨ p = .literal) :
    k.offset < k'.offset := by
  have bottom : p.rank = 0 := by rcases lowest with rfl | rfl <;> rfl
  refine Nat.lt_of_le_of_ne h.forward fun same => ?_
  have := h.lower same.symm
  omega

theorem stage_proceeds (more : (l.stage t n).2.ahead ≠ []) :
    Proceeds (l.stage t n).1 (l.stage t n).2 (l.stage t (n + 1)).1 (l.stage t (n + 1)).2 :=
  step_proceeds l _ _ more

/-- Before the end no place lies outside the text. -/
theorem position_add (before : ∀ i < n, (l.stage t i).2.ahead ≠ []) :
    l.position t n + (l.stage t n).2.ahead.size = t.size := by
  induction n with
  | zero => simp [position, stage, Cursor.atStart, Cursor.offset]
  | succ n ih =>
    have whole := (stage_proceeds (before n (Nat.lt_succ_self n))).whole
    have so_far := ih fun i hi => before i (Nat.lt_succ_of_lt hi)
    unfold position at *
    omega

/-- The places of several steps go forward, and as long as they are the same each step takes the phase
down by one rank at least. -/
theorem position_le (more : ∀ j < n, (l.stage t (i + j)).2.ahead ≠ []) :
    l.position t i ≤ l.position t (i + n) ∧
      (l.position t (i + n) = l.position t i → (l.stage t (i + n)).1.rank + n ≤ (l.stage t i).1.rank) := by
  induction n with
  | zero => exact ⟨Nat.le_refl _, fun _ => Nat.le_refl _⟩
  | succ n ih =>
    obtain ⟨forward, lower⟩ := ih fun j hj => more j (Nat.lt_succ_of_lt hj)
    have last := stage_proceeds (more n (Nat.lt_succ_self n))
    have next : l.position t (i + n) ≤ l.position t (i + n + 1) := last.forward
    refine ⟨Nat.le_trans forward next, fun (stays : l.position t (i + n + 1) = l.position t i) => ?_⟩
    have rank := lower (by omega)
    have last_rank : (l.stage t (i + n + 1)).1.rank < (l.stage t (i + n)).1.rank :=
      last.lower (show l.position t (i + n + 1) = l.position t (i + n) by omega)
    change (l.stage t (i + n + 1)).1.rank + (n + 1) ≤ _
    omega

/-- There are four ranks only. -/
theorem position_lt (more : ∀ j < 4, (l.stage t (i + j)).2.ahead ≠ []) :
    l.position t i < l.position t (i + 4) := by
  obtain ⟨forward, lower⟩ := position_le more
  refine Nat.lt_of_le_of_ne forward fun same => ?_
  have rank := lower same.symm
  have highest : (l.stage t i).1.rank ≤ 3 := by cases (l.stage t i).1 <;> decide
  omega

theorem le_position (more : ∀ i < 4 * n, (l.stage t i).2.ahead ≠ []) : n ≤ l.position t (4 * n) := by
  induction n with
  | zero => exact Nat.zero_le _
  | succ n ih =>
    have so_far := ih fun i hi => more i (by omega)
    have four := position_lt (l := l) (t := t) (i := 4 * n) fun j hj => more (4 * n + j) (by omega)
    rw [Nat.mul_succ]
    omega

/-- The run stops: after four steps for each byte it could only be behind the end. -/
theorem exists_end (l : Locator) (t : Text) : ∃ n ≤ 4 * t.size, (l.stage t n).2.ahead = [] := by
  by_contra endless
  have more (i : Nat) (hi : i ≤ 4 * t.size) : (l.stage t i).2.ahead ≠ [] := fun ended =>
    endless ⟨i, hi, ended⟩
  have far := le_position (l := l) (t := t) (n := t.size) fun i hi => more i (Nat.le_of_lt hi)
  have whole := position_add (l := l) (t := t) (n := 4 * t.size) fun i hi => more i (Nat.le_of_lt hi)
  exact more _ (Nat.le_refl _) (Text.eq_nil_of_size (by omega))

/-- The run that starts after `n` steps finds what is left. -/
theorem findings_eq (before : ∀ i < n, (l.stage t i).2.ahead ≠ []) :
    l.findings t = (List.range n).flatMap (fun i => (l.foundAfter t i).toList) ++
      l.run (l.stage t n).1 (l.stage t n).2 := by
  induction n with
  | zero => rfl
  | succ n ih =>
    have next := before n (Nat.lt_succ_self n)
    rw [ih fun i hi => before i (Nat.lt_succ_of_lt hi), run, dif_neg next, List.range_succ,
      List.flatMap_append, List.flatMap_singleton, List.append_assoc]
    rfl

/-- The run over a text ends: it takes finitely many steps, at most four for each byte, and what it finds is
what these find. Up to the end its place never moves back and never passes the end; a step that stays at its
place enters a lower phase, those in a comment or a literal move, and so do any four steps together. -/
theorem run_reaches_end (l : Locator) (t : Text) :
    ∃ n ≤ 4 * t.size,
      l.position t n = t.size ∧ (∀ i < n, l.position t i < t.size) ∧
      l.findings t = (List.range n).flatMap (fun i => (l.foundAfter t i).toList) ∧
      (∀ i < n, l.position t i ≤ l.position t (i + 1) ∧ l.position t (i + 1) ≤ t.size ∧
        (l.position t (i + 1) = l.position t i →
          (l.stage t (i + 1)).1.rank < (l.stage t i).1.rank) ∧
        ((l.stage t i).1 = .comment ∨ (l.stage t i).1 = .literal →
          l.position t i < l.position t (i + 1))) ∧
      ∀ i, i + 4 ≤ n → l.position t i < l.position t (i + 4) := by
  obtain ⟨m, bound, ended⟩ := exists_end l t
  have some : ∃ n, (l.stage t n).2.ahead = [] := ⟨m, ended⟩
  have before (i : Nat) (hi : i < Nat.find some) : (l.stage t i).2.ahead ≠ [] := Nat.find_min some hi
  have whole (i : Nat) (hi : i ≤ Nat.find some) : l.position t i + (l.stage t i).2.ahead.size = t.size :=
    position_add fun j hj => before j (Nat.lt_of_lt_of_le hj hi)
  refine ⟨Nat.find some, Nat.le_trans (Nat.find_min' some ended) bound, ?_, fun i hi => ?_, ?_,
    fun i hi => ?_, fun i hi => position_lt fun j hj => before (i + j) (by omega)⟩
  · have last := whole _ (Nat.le_refl _)
    rwa [Nat.find_spec some] at last
  · have here := whole i (Nat.le_of_lt hi)
    have more := Text.size_pos (before i hi)
    omega
  · rw [findings_eq before, run, dif_pos (Nat.find_spec some), List.append_nil]
  · have proceeds := stage_proceeds (before i hi)
    have next := whole (i + 1) hi
    exact ⟨proceeds.forward, by omega, proceeds.lower, proceeds.moves⟩

end HostSql.Locator
