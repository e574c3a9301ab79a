import HostSql.Text.Basic

/-! Searching a text from left to right. -/
namespace HostSql.Text

theorem strip?_eq_some_iff {lead t rest : Text} : strip? lead t = some rest ↔ t = lead ++ rest := by
  fun_induction strip? lead t with
  | case1 t => simp [eq_comm]
  | case2 a lead => simp
  | case3 a lead t ih => simp [ih]
  | case4 a lead b t hab => simp [Ne.symm hab]

@[simp] theorem strip?_append (lead rest : Text) : strip? lead (lead ++ rest) = some rest :=
  strip?_eq_some_iff.2 rfl

theorem strip?_eq_none_iff {lead t : Text} : strip? lead t = none ↔ ∀ rest, t ≠ lead ++ rest := by
  constructor
  · rintro h rest rfl
    rw [strip?_append] at h
    cases h
  · intro h
    cases hs : strip? lead t with
    | none => rfl
    | some rest => exact absurd (strip?_eq_some_iff.1 hs) (h rest)

/-- Of two beginnings of a text the shorter one begins the longer one. -/
theorem exists_append_of_length_le {u v u' v' : Text} (h : u ++ v = u' ++ v')
    (hle : u.length ≤ u'.length) : ∃ w, u' = u ++ w ∧ v = w ++ v' := by
  rcases List.append_eq_append_iff.1 h with ⟨w, hu, hv⟩ | ⟨w, hu, hv⟩
  · exact ⟨w, hu, hv⟩
  · have empty : w = [] := by
      apply List.eq_nil_of_length_eq_zero
      rw [hu, List.length_append] at hle
      omega
    rw [empty, List.append_nil] at hu
    rw [empty, List.nil_append] at hv
    exact ⟨[], by rw [hu, List.append_nil], by rw [hv, List.nil_append]⟩

/-- The first occurrence is an occurrence, and none begins before it. -/
theorem splitFirst?_spec {needle t before after : Text}
    (h : splitFirst? needle t = some (before, after)) :
    t = before ++ (needle ++ after) ∧
    ∀ u v, t = u ++ (needle ++ v) → before.length ≤ u.length := by
  induction t generalizing before with
  | nil =>
    unfold splitFirst? at h
    split at h
    · next hn =>
      cases h
      simp [List.isEmpty_iff.1 hn]
    · cases h
  | cons c t ih =>
    unfold splitFirst? at h
    split at h
    · next rest hs =>
      cases h
      have whole : c :: t = needle ++ after := strip?_eq_some_iff.1 hs
      exact ⟨whole, fun _ _ _ => Nat.zero_le _⟩
    · next hs =>
      obtain ⟨⟨b, a⟩, hb, heq⟩ := Option.map_eq_some_iff.1 h
      cases heq
      obtain ⟨rfl, least⟩ := ih hb
      refine ⟨rfl, fun u v huv => ?_⟩
      cases u with
      | nil => exact absurd huv (strip?_eq_none_iff.1 hs v)
      | cons d u =>
        have := least u v (List.cons.inj huv).2
        simp only [List.length_cons]
        omega

theorem splitFirst?_isSome {needle t u v : Text} (h : t = u ++ (needle ++ v)) :
    (splitFirst? needle t).isSome = true := by
  induction u generalizing t with
  | nil =>
    subst h
    cases hl : needle ++ v with
    | nil => simp [splitFirst?, (List.append_eq_nil_iff.1 hl).1]
    | cons c t =>
      have hs : strip? needle (c :: t) = some v := by rw [← hl, strip?_append]
      simp [splitFirst?, hs]
  | cons c u ih =>
    subst h
    rw [List.cons_append, splitFirst?]
    split
    · rfl
    · rw [Option.isSome_map]
      exact ih rfl

theorem occursIn_iff {needle t : Text} : occursIn needle t = true ↔ needle <:+: t := by
  constructor
  · intro h
    obtain ⟨⟨before, after⟩, found⟩ := Option.isSome_iff_exists.1 h
    have whole := (splitFirst?_spec found).1
    exact ⟨before, after, by rw [whole, List.append_assoc]⟩
  · rintro ⟨u, v, whole⟩
    exact splitFirst?_isSome (whole.symm.trans (List.append_assoc u needle v))

theorem splitFirst?_of_splitOnly? {needle t before after : Text}
    (h : splitOnly? needle t = some (before, after)) :
    splitFirst? needle t = some (before, after) := by
  unfold splitOnly? at h
  split at h
  · next hf =>
    split at h
    · cases h
      exact hf
    · cases h
  · cases h

/-- An occurrence that the search for a second one passes over overlaps the first one. -/
theorem splitOnly?_spec {needle t before after : Text}
    (h : splitOnly? needle t = some (before, after)) :
    t = before ++ (needle ++ after) ∧
    ∀ u v, t = u ++ (needle ++ v) →
      before.length ≤ u.length ∧ (needle ≠ [] → u.length < before.length + needle.length) := by
  unfold splitOnly? at h
  split at h
  · next b a hf =>
    split at h
    · next hnone =>
      cases h
      obtain ⟨whole, least⟩ := splitFirst?_spec hf
      refine ⟨whole, fun u v huv => ⟨least u v huv, fun _ => ?_⟩⟩
      by_cases hlt : u.length < before.length + needle.length
      · exact hlt
      · -- An occurrence from there on lies in what follows the first one.
        have behind : (before ++ needle).length ≤ u.length := by
          rw [List.length_append]
          omega
        rw [whole, ← List.append_assoc] at huv
        obtain ⟨w, -, hw⟩ := exists_append_of_length_le huv behind
        have := splitFirst?_isSome hw
        rw [Option.isNone_iff_eq_none.1 hnone] at this
        cases this
    · cases h
  · cases h

section
variable {x k u v u' v' a b t : Text}

/-- Where a text is found once, two places of it overlap. -/
theorem lt_of_splitOnly? (h : (splitOnly? x t).isSome = true) (hx : x ≠ []) (here : t = u ++ (x ++ v))
    (there : t = u' ++ (x ++ v')) : u.length < u'.length + x.length := by
  obtain ⟨⟨first, behind⟩, found⟩ := Option.isSome_iff_exists.1 h
  obtain ⟨-, least⟩ := splitOnly?_spec found
  have before := (least u' v' there).1
  have after := (least u v here).2 hx
  omega

/-- The first place in a text is the first one in a part of the text that holds it. -/
theorem splitFirst?_within (h : splitFirst? x (u ++ (k ++ v)) = some (u ++ a, b ++ v))
    (whole : k = a ++ (x ++ b)) : splitFirst? x k = some (a, b) := by
  obtain ⟨⟨a', b'⟩, found⟩ := Option.isSome_iff_exists.1 (splitFirst?_isSome whole)
  obtain ⟨place, least⟩ := splitFirst?_spec found
  have shorter := least a b whole
  have longer : (u ++ a).length ≤ (u ++ a').length := by
    apply (splitFirst?_spec h).2 (u ++ a') (b' ++ v)
    rw [place]
    simp
  rw [List.length_append, List.length_append] at longer
  have same : a'.length = a.length := by omega
  obtain ⟨rfl, rest⟩ := List.append_inj (place.symm.trans whole) same
  rw [found, List.append_cancel_left rest]

theorem splitOnly?_within (only : (splitOnly? x (u ++ (k ++ v))).isSome = true)
    (h : splitFirst? x (u ++ (k ++ v)) = some (u ++ a, b ++ v)) (whole : k = a ++ (x ++ b)) :
    (splitOnly? x k).isSome = true := by
  have none : splitFirst? x b = none := by
    cases again : splitFirst? x b with
    | none => rfl
    | some parts =>
      have later : (splitFirst? x (b ++ v)).isSome = true := by
        apply splitFirst?_isSome (u := parts.1) (v := parts.2 ++ v)
        rw [(splitFirst?_spec again).1]
        simp
      rw [splitOnly?, h] at only
      dsimp only at only
      rw [Option.isNone_eq_false_iff.2 later] at only
      cases only
  rw [splitOnly?, splitFirst?_within h whole]
  dsimp only
  rw [none]
  rfl

end

section
variable {p : Char → Bool} {u t lead : Text} {s : Char}

theorem drop_takeWhile (p : Char → Bool) (t : Text) :
    t.drop (t.takeWhile p).length = t.dropWhile p := by
  have whole : t.takeWhile p ++ t.dropWhile p = t := List.takeWhile_append_dropWhile
  calc t.drop (t.takeWhile p).length
      = (t.takeWhile p ++ t.dropWhile p).drop (t.takeWhile p).length := by rw [whole]
    _ = t.dropWhile p := List.drop_left

theorem takeWhile_stop (inside : ∀ c ∈ u, p c = true) (stop : t.head?.any p = false) :
    (u ++ t).takeWhile p = u := by
  rw [List.takeWhile_append_of_pos inside]
  cases t with
  | nil => simp
  | cons c t => simp [show p c = false by simpa using stop]

theorem dropWhile_stop (inside : ∀ c ∈ u, p c = true) (stop : t.head?.any p = false) :
    (u ++ t).dropWhile p = t := by
  rw [List.dropWhile_append_of_pos inside]
  cases t with
  | nil => rfl
  | cons c t => simp [show p c = false by simpa using stop]

/-- The characters of the class at the front, and what follows them. -/
theorem exists_takeWhile (p : Char → Bool) (t : Text) :
    ∃ u w, t = u ++ w ∧ (∀ c ∈ u, p c = true) ∧ w.head?.any p = false := by
  refine ⟨t.takeWhile p, t.dropWhile p, List.takeWhile_append_dropWhile.symm, ?_, ?_⟩
  · exact List.all_eq_true.1 List.all_takeWhile
  · have stop := List.head?_dropWhile_not p t
    cases h : (t.dropWhile p).head? with
    | none => rfl
    | some d => simpa [h] using stop

/-- A character outside the class is not passed, so what follows it has no part in the search. -/
theorem dropWhile_lead (hs : s ∈ lead) (stop : p s = false) (t : Text) :
    (lead ++ t).dropWhile p = lead.dropWhile p ++ t ∧ s ∈ lead.dropWhile p := by
  induction lead with
  | nil => cases hs
  | cons c lead ih =>
    cases hc : p c with
    | false => simpa [hc] using hs
    | true =>
      have later : s ∈ lead := by
        rcases List.mem_cons.1 hs with rfl | h
        · rw [stop] at hc; cases hc
        · exact h
      simpa [hc] using ih later

theorem takeWhile_lead (hs : s ∈ lead) (stop : p s = false) (t : Text) :
    (lead ++ t).takeWhile p = lead.takeWhile p := by
  induction lead with
  | nil => cases hs
  | cons c lead ih =>
    cases hc : p c with
    | false => simp [hc]
    | true =>
      have later : s ∈ lead := by
        rcases List.mem_cons.1 hs with rfl | h
        · rw [stop] at hc; cases hc
        · exact h
      simpa [hc] using ih later

end

end HostSql.Text
