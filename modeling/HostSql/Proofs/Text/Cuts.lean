import HostSql.Proofs.Text.Search

/-! Cuts of a text at byte positions. A position that is the size of a beginning cuts the text right
behind that beginning. -/
namespace HostSql.Text

@[simp] theorem size_nil : size [] = 0 := rfl

@[simp] theorem size_cons (c : Char) (t : Text) : size (c :: t) = c.utf8Size + size t := rfl

@[simp] theorem size_append (u v : Text) : size (u ++ v) = size u + size v := by
  induction u with
  | nil => simp
  | cons c u ih => simp [ih, Nat.add_assoc]

@[simp] theorem size_reverse (t : Text) : size t.reverse = size t := by
  induction t with
  | nil => rfl
  | cons c t ih => simp [ih, Nat.add_comm]

theorem size_pos {t : Text} (h : t ≠ []) : 0 < size t := by
  cases t with
  | nil => exact absurd rfl h
  | cons c t =>
    have := c.utf8Size_pos
    rw [size_cons]
    omega

theorem eq_nil_of_size {t : Text} (h : size t = 0) : t = [] := by
  cases t with
  | nil => rfl
  | cons c t => exact absurd (size_pos (List.cons_ne_nil c t)) (by omega)

@[simp] theorem cutAt_zero (t : Text) : cutAt 0 t = ([], t) := by
  cases t with
  | nil => rfl
  | cons c t =>
    have := c.utf8Size_pos
    rw [cutAt, if_neg (by omega)]

theorem cutAt_append (u v : Text) (n : Nat) :
    cutAt (size u + n) (u ++ v) = (u ++ (cutAt n v).1, (cutAt n v).2) := by
  induction u with
  | nil => simp
  | cons c u ih =>
    have rest : c.utf8Size + size u + n - c.utf8Size = size u + n := by omega
    rw [size_cons, List.cons_append, cutAt, if_pos (by omega), rest, ih]
    rfl

theorem cutAt_parts (n : Nat) (t : Text) : (cutAt n t).1 ++ (cutAt n t).2 = t := by
  fun_induction cutAt n t with
  | case1 => rfl
  | case2 n c t hle head tail hcut ih =>
    rw [hcut] at ih
    exact congrArg (c :: ·) ih
  | case3 => rfl

@[simp] theorem before_size (u v : Text) : before (u ++ v) (size u) = u := by
  have := cutAt_append u v 0
  rw [Nat.add_zero, cutAt_zero, List.append_nil] at this
  rw [before, this]

@[simp] theorem after_size (u v : Text) : after (u ++ v) (size u) = v := by
  have := cutAt_append u v 0
  rw [Nat.add_zero, cutAt_zero, List.append_nil] at this
  rw [after, this]

theorem before_append_after (t : Text) (n : Nat) : t.before n ++ t.after n = t := cutAt_parts n t

/-- What stands between two beginnings of a text. -/
theorem slice_between (u v w : Text) :
    slice (u ++ (v ++ w)) ⟨size u, size u + size v⟩ = v := by
  rw [slice, ← List.append_assoc, ← size_append, before_size, after_size]

/-- A position at a border is the size of what lies before it. -/
theorem isBorder_iff {t : Text} {n : Nat} :
    t.isBorder n = true ↔ ∃ u v, t = u ++ v ∧ size u = n := by
  rw [isBorder, beq_iff_eq]
  constructor
  · intro h
    exact ⟨t.before n, t.after n, (before_append_after t n).symm, h⟩
  · rintro ⟨u, v, rfl, rfl⟩
    rw [before_size]

/-- Of two beginnings of a text the shorter one begins the longer one. -/
theorem exists_append_of_size_le {u v u' v' : Text} (h : u ++ v = u' ++ v')
    (hle : size u ≤ size u') : ∃ w, u' = u ++ w ∧ v = w ++ v' := by
  rcases Nat.le_total u.length u'.length with hlen | hlen
  · exact exists_append_of_length_le h hlen
  · obtain ⟨w, rfl, rfl⟩ := exists_append_of_length_le h.symm hlen
    have empty : w = [] := by
      apply eq_nil_of_size
      rw [size_append] at hle
      omega
    exact ⟨[], by simp [empty], by simp [empty]⟩

end HostSql.Text
