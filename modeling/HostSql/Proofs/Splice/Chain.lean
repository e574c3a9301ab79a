import Mathlib.Data.List.Chain

/-! Groups of lines one after the other, and other lines in place of each group. A line is solid if it
can stand in a group; blank ones cannot. If the lines are the same as before, so is each group: what
one of them took over from those behind it, none of these could give up. -/
namespace HostSql.Splice

variable {α : Type} {solid blank : α → Bool} {gap gap' old new u u' rest rest' x y : List α}

/-- A group that `new` is put in place of: lines that hold something, or a single line, which is blank
where nothing is left. -/
structure Group (solid blank : α → Bool) (old new : List α) : Prop where
  held : ∀ z ∈ old, solid z = true
  some : old ≠ []
  kept : (∀ z ∈ new, blank z = false) ∨ ∃ z, new = [z]

/-- Lines before a group, of which the first one is a marker. -/
structure Gap (solid blank : α → Bool) (gap : List α) : Prop where
  still : ∀ z ∈ gap, solid z = false
  opened : ∃ z more, gap = z :: more ∧ blank z = false

/-- Lines behind a group, and the lines that they become: none, or a blank one and any others, or a
marker, with only markers and blank lines up to the end or the next group. -/
inductive Chain (solid blank : α → Bool) : List α → List α → Prop
  | done : Chain solid blank [] []
  | blank {z : α} (empty : blank z = true) (still : solid z = false) (rest rest' : List α) :
      Chain solid blank (z :: rest) (z :: rest')
  | quiet {gap : List α} (before : Gap solid blank gap) : Chain solid blank gap gap
  | next {gap old new rest rest' : List α} (before : Gap solid blank gap)
      (group : Group solid blank old new) (more : Chain solid blank rest rest') :
      Chain solid blank (gap ++ (old ++ rest)) (gap ++ (new ++ rest'))

theorem Gap.append (h : Gap solid blank gap) (still : ∀ z ∈ x, solid z = false) :
    Gap solid blank (gap ++ x) := by
  obtain ⟨inside, z, more, rfl, filled⟩ := h
  refine ⟨fun y hy => ?_, z, more ++ x, rfl, filled⟩
  exact (List.mem_append.1 hy).elim (inside y) (still y)

/-- Another marker before the first one. -/
theorem Chain.prepend (before : Gap solid blank gap) (h : Chain solid blank u u')
    (marker : ∃ z ∈ u.head?, blank z = false) : Chain solid blank (gap ++ u) (gap ++ u') := by
  obtain ⟨z, first, filled⟩ := marker
  cases h with
  | done => cases first
  | blank empty =>
    cases first
    rw [filled] at empty
    cases empty
  | quiet before' => exact .quiet (before.append before'.still)
  | next before' group more =>
    rw [← List.append_assoc gap, ← List.append_assoc gap]
    exact .next (before.append before'.still) group more

/-- No group begins where one has ended. -/
theorem Chain.still (h : Chain solid blank u u') : ∀ z ∈ u'.head?, solid z = false := by
  intro z first
  cases h with
  | done => cases first
  | blank _ still =>
    cases first
    exact still
  | quiet before | next before =>
    obtain ⟨still, y, more, rfl, -⟩ := before
    cases first
    exact still _ List.mem_cons_self

/-- A solid line is not followed by a blank one. -/
def Tight (solid blank : α → Bool) (x : List α) : Prop :=
  x.IsChain fun y z => solid y = true → blank z = false

theorem tight_of_mem (h : ∀ y ∈ x, ∀ z ∈ x, solid y = true → blank z = false) :
    Tight solid blank x := by
  refine List.isChain_iff_forall_rel_of_append_cons_cons.2 fun y z a b whole => ?_
  exact h y (by simp [whole]) z (by simp [whole])

/-- A group's gap and what is put in its place. -/
theorem tight_gap_append (before : Gap solid blank gap) (group : Group solid blank old new) :
    Tight solid blank (gap ++ new) := by
  refine List.IsChain.append ?_ ?_ fun y hy z _ held => ?_
  · exact tight_of_mem fun y hy z _ held => by rw [before.still y hy] at held; cases held
  · rcases group.kept with filled | ⟨z, rfl⟩
    · exact tight_of_mem fun _ _ z hz _ => filled z hz
    · exact .singleton z
  · rw [before.still y (List.mem_of_getLast? hy)] at held
    cases held

/-- Lines that are put before what a group has become move the rest: lines stand before what that has
become, too. -/
theorem exists_shifted (before : Gap solid blank gap) (group : Group solid blank old new)
    (some : x ≠ []) (tight : Tight solid blank x)
    (same : gap ++ (old ++ rest) = x ++ (gap ++ (new ++ rest'))) :
    ∃ z more, rest = (z :: more) ++ rest' ∧ blank z = false ∧ Tight solid blank (z :: more) := by
  obtain ⟨first, others, opened, filled⟩ := before.opened
  obtain ⟨head, tail, hold⟩ := List.exists_cons_of_ne_nil group.some
  have held : solid head = true := group.held head (by simp [hold])
  have inside := tight_gap_append before group
  rcases List.append_eq_append_iff.1 same with ⟨v, rfl, hv⟩ | ⟨v, hgap, hv⟩
  · rcases List.append_eq_append_iff.1 hv with ⟨w, rfl, rfl⟩ | ⟨w, hw, hrest⟩
    · -- the lines reach beyond the group
      have behind := List.isChain_append.1 (List.isChain_append.1 tight).2.1
      have border : ∀ y ∈ w.getLast?, ∀ z ∈ (gap ++ new).head?, solid y = true → blank z = false := by
        intro y _ z hz _
        rw [opened] at hz
        cases hz
        exact filled
      have all : Tight solid blank (w ++ (gap ++ new)) := behind.2.1.append inside border
      cases w with
      | nil =>
        rw [List.nil_append, opened] at all
        exact ⟨first, others ++ new, by simp [opened], filled, all⟩
      | cons z w =>
        refine ⟨z, w ++ (gap ++ new), by simp, ?_, all⟩
        have last := List.getLast?_eq_some_getLast group.some
        exact behind.2.2 _ last z rfl (group.held _ (List.getLast_mem group.some))
    · cases w with
      | nil =>
        rw [opened] at inside
        refine ⟨first, others ++ new, ?_, filled, inside⟩
        rw [List.nil_append] at hrest
        rw [← hrest, opened]
        simp
      | cons z w =>
        have solid' := group.held z (by simp [hw])
        rw [opened] at hrest
        obtain ⟨rfl, -⟩ := List.cons.inj hrest
        rw [before.still _ (by simp [opened])] at solid'
        cases solid'
  · rcases List.append_eq_append_iff.1 hv with ⟨w, hw, -⟩ | ⟨w, hw, hrest⟩
    · have short := congrArg List.length hgap
      have long := congrArg List.length hw
      have := List.length_pos_iff.2 some
      simp only [List.length_append] at short long
      omega
    · -- a line of the gap would be one of the group
      have long : w ≠ [] := by
        rintro rfl
        have short := congrArg List.length (hgap.symm.trans hw)
        have := List.length_pos_iff.2 some
        simp only [List.length_append, List.length_nil] at short
        omega
      obtain ⟨z, w, rfl⟩ := List.exists_cons_of_ne_nil long
      rw [hold] at hrest
      obtain ⟨rfl, -⟩ := List.cons.inj hrest
      rw [before.still _ (by simp [hw])] at held
      cases held

/-- No lines can be put before those that a chain has become, so that they are what it was. -/
theorem Chain.ne_append (h : Chain solid blank u u') (some : x ≠ []) (tight : Tight solid blank x)
    (filled : ∀ z ∈ x.head?, blank z = false) : u ≠ x ++ u' := by
  intro same
  induction h generalizing x with
  | done =>
    rw [List.append_nil] at same
    exact some same.symm
  | blank empty =>
    obtain ⟨y, x, rfl⟩ := List.exists_cons_of_ne_nil some
    obtain ⟨rfl, -⟩ := List.cons.inj same
    rw [filled _ rfl] at empty
    cases empty
  | quiet =>
    have := congrArg List.length same
    have := List.length_pos_iff.2 some
    simp only [List.length_append] at *
    omega
  | next before group _ ih =>
    obtain ⟨z, more, rest, first, tight'⟩ := exists_shifted before group some tight same
    refine ih (List.cons_ne_nil z more) tight' ?_ rest
    rintro _ ⟨⟩
    exact first

/-- If all lines are what they were, so are those of the first group. -/
theorem Group.eq_of_append (group : Group solid blank old new) (more : Chain solid blank rest rest')
    (same : old ++ rest = new ++ rest') : new = old := by
  rcases List.append_eq_append_iff.1 same with ⟨x, hnew, hrest⟩ | ⟨x, hold, hrest⟩
  · by_cases none : x = []
    · rw [hnew, none, List.append_nil]
    · exfalso
      rcases group.kept with filled | ⟨z, one⟩
      · have inside : ∀ z ∈ x, blank z = false := fun z hz => filled z (by simp [hnew, hz])
        refine more.ne_append none ?_ (fun z hz => inside z (List.mem_of_head? hz)) hrest
        exact tight_of_mem fun _ _ z hz _ => inside z hz
      · rw [hnew, List.append_eq_singleton_iff] at one
        rcases one with ⟨empty, -⟩ | ⟨-, empty⟩
        · exact group.some empty
        · exact none empty
  · cases x with
    | nil => rw [hold, List.append_nil]
    | cons z x =>
      have still := more.still z (by simp [hrest])
      rw [group.held z (by simp [hold])] at still
      cases still

end HostSql.Splice
