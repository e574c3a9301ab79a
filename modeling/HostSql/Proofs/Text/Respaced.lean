import HostSql.Host.Literal
import HostSql.Proofs.Text.Lines

/-! Texts that differ in their blanks and in the case of some words. A needle without blanks that
begins and ends with an underscore is found at the corresponding place in both. -/
namespace HostSql.Text

/-- Characters of words whose case may change: none of them means anything to the marks, braces and
identifiers around. -/
def isPlain (c : Char) : Bool := !isBlank c && c != '_' && c != '{' && c != '}' && !isQuote c

/-- Blanks may stand for other blanks, but none may vanish between two characters that are not
blank. A whole word of plain characters may stand for another one of the same length. -/
inductive Respaced : Text → Text → Prop
  | ends {h h' : Text} (blank : ∀ c ∈ h, isBlank c = true) (blank' : ∀ c ∈ h', isBlank c = true) :
      Respaced h h'
  | char {c : Char} {t t' : Text} (solid : isBlank c = false) (more : Respaced t t') :
      Respaced (c :: t) (c :: t')
  | gap {g g' t t' : Text} (blank : ∀ c ∈ g, isBlank c = true) (blank' : ∀ c ∈ g', isBlank c = true)
      (filled : g ≠ []) (filled' : g' ≠ []) (more : Respaced t t') : Respaced (g ++ t) (g' ++ t')
  | word {w w' t t' : Text} (plain : ∀ c ∈ w, isPlain c = true) (plain' : ∀ c ∈ w', isPlain c = true)
      (same : w'.length = w.length) (stop : t.head?.all isBlank = true)
      (stop' : t'.head?.all isBlank = true) (more : Respaced t t') : Respaced (w ++ t) (w' ++ t')

theorem solid_of_plain {c : Char} (h : isPlain c = true) : isBlank c = false := by
  simp [isPlain] at h
  exact h.1.1.1.1

theorem ne_underscore_of_plain {c : Char} (h : isPlain c = true) : c ≠ '_' := by
  rintro rfl
  revert h
  decide

namespace Respaced
variable {t t' : Text}

theorem symm (h : Respaced t t') : Respaced t' t := by
  induction h with
  | ends blank blank' => exact .ends blank' blank
  | char solid _ ih => exact .char solid ih
  | gap blank blank' filled filled' _ ih => exact .gap blank' blank filled' filled ih
  | word plain plain' same stop stop' _ ih => exact .word plain' plain same.symm stop' stop ih

theorem blank {c : Char} (hc : isBlank c = true) (h : Respaced t t') :
    Respaced (c :: t) (c :: t') := by
  have one : ∀ x ∈ [c], isBlank x = true := by simpa using hc
  exact .gap one one (by simp) (by simp) h

/-- The same text before both. -/
theorem append_left (w : Text) (h : Respaced t t') : Respaced (w ++ t) (w ++ t') := by
  induction w with
  | nil => exact h
  | cons c w ih =>
    cases hc : isBlank c with
    | false => exact .char hc ih
    | true => exact .blank hc ih

theorem append_blanks (t : Text) {g : Text} (h : ∀ c ∈ g, isBlank c = true) :
    Respaced t (t ++ g) := by
  have ends : Respaced [] g := .ends (by simp) h
  simpa using ends.append_left t

theorem refl (t : Text) : Respaced t t := by simpa using append_blanks t (g := []) (by simp)

end Respaced

/-- Beginnings of such texts, up to a character that is not blank. -/
def Within (t t' : Text) : Prop := ∀ z z', Respaced z z' → Respaced (t ++ z) (t' ++ z')

/-- A needle, or what is left of it when its first characters have been matched. -/
structure Needle (y : Text) : Prop where
  solid : ∀ c ∈ y, isBlank c = false
  last : y ≠ [] → y.getLast? = some '_'

theorem Needle.tail {c : Char} {y : Text} (h : Needle (c :: y)) : Needle y := by
  refine ⟨fun d hd => h.solid d (List.mem_cons_of_mem _ hd), fun hy => ?_⟩
  rw [← h.last (by simp), List.getLast?_cons]
  cases hl : y.getLast? with
  | none => exact absurd (List.getLast?_eq_none_iff.1 hl) hy
  | some d => rfl

section
variable {t t' x y r A B : Text}

/-- A text that starts with a needle starts with it after respacing. -/
theorem Respaced.of_needle (hy : Needle y) (h : Respaced (y ++ r) t') :
    ∃ r', t' = y ++ r' ∧ Respaced r r' := by
  generalize ht : y ++ r = t at h
  induction h generalizing y with
  | @ends h h' blank blank' =>
    cases y with
    | nil =>
      subst ht
      exact ⟨h', rfl, .ends blank blank'⟩
    | cons c y =>
      have := blank c (ht ▸ List.mem_cons_self)
      rw [hy.solid c List.mem_cons_self] at this
      cases this
  | @char c t t' solid more ih =>
    cases y with
    | nil =>
      subst ht
      exact ⟨c :: t', rfl, .char solid more⟩
    | cons d y =>
      obtain ⟨rfl, rfl⟩ := List.cons.inj ht
      obtain ⟨r', rfl, hr⟩ := ih hy.tail rfl
      exact ⟨r', rfl, hr⟩
  | @gap g g' t t' blank blank' filled filled' more ih =>
    cases y with
    | nil =>
      subst ht
      exact ⟨g' ++ t', rfl, .gap blank blank' filled filled' more⟩
    | cons c y =>
      obtain ⟨d, g, rfl⟩ := List.exists_cons_of_ne_nil filled
      have := blank d List.mem_cons_self
      rw [← (List.cons.inj ht).1, hy.solid c List.mem_cons_self] at this
      cases this
  | @word w w' t t' plain plain' same stop stop' more ih =>
    by_cases empty : y = []
    · subst empty ht
      exact ⟨w' ++ t', rfl, .word plain plain' same stop stop' more⟩
    -- The needle ends with an underscore, so it would reach over the end of the word.
    have last : '_' ∈ y := List.mem_of_getLast? (hy.last empty)
    rcases List.append_eq_append_iff.1 ht with ⟨z, hw, -⟩ | ⟨z, rfl, hz⟩
    · exact absurd rfl (ne_underscore_of_plain (plain '_' (by rw [hw]; exact List.mem_append_left z last)))
    · cases z with
      | nil =>
        rw [List.append_nil] at last
        exact absurd rfl (ne_underscore_of_plain (plain '_' last))
      | cons c z =>
        rw [hz] at stop
        have := hy.solid c (by simp)
        simp [this] at stop

/-- The search passes characters that the needle does not begin with. -/
theorem splitFirst?_append {g : Text} (hx : x ≠ []) (h : ∀ c ∈ g, x.head? ≠ some c) (t : Text) :
    splitFirst? x (g ++ t) = (splitFirst? x t).map fun (a, b) => (g ++ a, b) := by
  induction g with
  | nil => simp
  | cons c g ih =>
    have none : strip? x (c :: (g ++ t)) = none := by
      rw [strip?_eq_none_iff]
      intro r hr
      obtain ⟨d, x, rfl⟩ := List.exists_cons_of_ne_nil hx
      exact h c List.mem_cons_self (by rw [(List.cons.inj hr).1]; rfl)
    rw [List.cons_append, splitFirst?, none, ih fun d hd => h d (List.mem_cons_of_mem _ hd)]
    dsimp only
    rw [Option.map_map]
    rfl

/-- A needle that can be looked for: it begins with an underscore too. -/
structure Searched (x : Text) : Prop extends Needle x where
  head : x.head? = some '_'

theorem Searched.ne_nil (hx : Searched x) : x ≠ [] := by
  rintro rfl
  cases hx.head

theorem Searched.not_blank (hx : Searched x) {g : Text} (hg : ∀ c ∈ g, isBlank c = true) :
    ∀ c ∈ g, x.head? ≠ some c := by
  intro c hc h
  have := hg c hc
  rw [hx.head] at h
  cases h
  exact absurd this (by decide)

/-- Blanks in front make no difference to whether the needle is found. -/
theorem Searched.occursIn_blanks_append (hx : Searched x) {g : Text}
    (hg : ∀ c ∈ g, isBlank c = true) (t : Text) :
    Text.occursIn x (g ++ t) = Text.occursIn x t := by
  rw [Text.occursIn, Text.occursIn, splitFirst?_append hx.ne_nil (hx.not_blank hg), Option.isSome_map]

/-- Nor to whether it is found once. -/
theorem Searched.splitOnly?_blanks_append (hx : Searched x) {g : Text}
    (hg : ∀ c ∈ g, isBlank c = true) (t : Text) :
    (Text.splitOnly? x (g ++ t)).isSome = (Text.splitOnly? x t).isSome := by
  rw [Text.splitOnly?, Text.splitOnly?, splitFirst?_append hx.ne_nil (hx.not_blank hg)]
  cases splitFirst? x t with
  | none => rfl
  | some p =>
    simp only [Option.map_some]
    split <;> rfl

theorem Searched.not_plain (hx : Searched x) {w : Text} (hw : ∀ c ∈ w, isPlain c = true) :
    ∀ c ∈ w, x.head? ≠ some c := by
  intro c hc h
  rw [hx.head] at h
  cases h
  exact ne_underscore_of_plain (hw _ hc) rfl

theorem Searched.stop_append (hx : Searched x) {A B : Text}
    (stop : (A ++ (x ++ B)).head?.all isBlank = true) (z : Text) :
    (A ++ z).head?.all isBlank = true := by
  cases A with
  | nil =>
    rw [List.nil_append, List.head?_append, hx.head] at stop
    exact absurd (show isBlank '_' = true from stop) (by decide)
  | cons c A => exact stop

theorem Within.respaced (h : Within t t') : Respaced t t' := by
  simpa using h [] [] (.refl [])

/-- The first occurrence is found at the corresponding place. -/
theorem Respaced.splitFirst? (hx : Searched x) (h : Respaced t t')
    (hs : Text.splitFirst? x t = some (A, B)) :
    ∃ A' B', Text.splitFirst? x t' = some (A', B') ∧ Within A A' ∧ Respaced B B' := by
  induction h generalizing A with
  | @ends h h' blank _ =>
    have := splitFirst?_append hx.ne_nil (hx.not_blank blank) []
    rw [List.append_nil, hs] at this
    cases hn : Text.splitFirst? x [] with
    | none => rw [hn] at this; cases this
    | some p =>
      have whole := (splitFirst?_spec hn).1
      exact absurd (List.append_eq_nil_iff.1 (List.append_eq_nil_iff.1 whole.symm).2).1 hx.ne_nil
  | @char c t t' solid more ih =>
    rw [Text.splitFirst?] at hs ⊢
    split at hs
    · next rest hstrip =>
      cases hs
      have whole := strip?_eq_some_iff.1 hstrip
      obtain ⟨r', hr', hB⟩ := (whole ▸ Respaced.char solid more).of_needle hx.toNeedle
      have found : strip? x (c :: t') = some r' := strip?_eq_some_iff.2 hr'
      exact ⟨[], r', by rw [found], fun _ _ hz => hz, hB⟩
    · next hstrip =>
      obtain ⟨⟨A, B⟩, hA, heq⟩ := Option.map_eq_some_iff.1 hs
      cases heq
      obtain ⟨A', B', found, hA', hB⟩ := ih hA
      have none : strip? x (c :: t') = none := by
        rw [strip?_eq_none_iff] at hstrip ⊢
        intro r' hr'
        obtain ⟨r, hr, -⟩ := (hr' ▸ (Respaced.char solid more).symm).of_needle hx.toNeedle
        exact hstrip r hr
      exact ⟨c :: A', B', by rw [none, found]; rfl, fun z z' hz => .char solid (hA' z z' hz), hB⟩
  | @gap g g' t t' blank blank' filled filled' more ih =>
    rw [splitFirst?_append hx.ne_nil (hx.not_blank blank)] at hs
    rw [splitFirst?_append hx.ne_nil (hx.not_blank blank')]
    obtain ⟨⟨A, B⟩, hA, heq⟩ := Option.map_eq_some_iff.1 hs
    cases heq
    obtain ⟨A', B', found, hA', hB⟩ := ih hA
    refine ⟨g' ++ A', B', by rw [found]; rfl, fun z z' hz => ?_, hB⟩
    rw [List.append_assoc, List.append_assoc]
    exact .gap blank blank' filled filled' (hA' z z' hz)
  | @word w w' t t' plain plain' same stop stop' more ih =>
    rw [splitFirst?_append hx.ne_nil (hx.not_plain plain)] at hs
    rw [splitFirst?_append hx.ne_nil (hx.not_plain plain')]
    obtain ⟨⟨A, B⟩, hA, heq⟩ := Option.map_eq_some_iff.1 hs
    cases heq
    obtain ⟨A', B', found, hA', hB⟩ := ih hA
    refine ⟨w' ++ A', B', by rw [found]; rfl, fun z z' hz => ?_, hB⟩
    rw [List.append_assoc, List.append_assoc]
    refine .word plain plain' same ?_ ?_ (hA' z z' hz)
    · exact hx.stop_append ((splitFirst?_spec hA).1 ▸ stop) z
    · exact hx.stop_append ((splitFirst?_spec found).1 ▸ stop') z'

theorem Respaced.occursIn (hx : Searched x) (h : Respaced t t') :
    Text.occursIn x t' = Text.occursIn x t := by
  have one {t t' : Text} (h : Respaced t t') (hs : Text.occursIn x t = true) :
      Text.occursIn x t' = true := by
    obtain ⟨⟨A, B⟩, hA⟩ := Option.isSome_iff_exists.1 hs
    obtain ⟨A', B', found, -, -⟩ := h.splitFirst? hx hA
    rw [Text.occursIn, found]
    rfl
  cases hs : Text.occursIn x t with
  | true => exact one h hs
  | false =>
    cases hs' : Text.occursIn x t' with
    | false => rfl
    | true => rw [one h.symm hs'] at hs; cases hs

/-- A needle that is found once is found once in both. -/
theorem Respaced.splitOnly? (hx : Searched x) (h : Respaced t t')
    (hs : (Text.splitOnly? x t).isSome = true) : (Text.splitOnly? x t').isSome = true := by
  unfold Text.splitOnly? at hs ⊢
  cases hA : Text.splitFirst? x t with
  | none => rw [hA] at hs; cases hs
  | some p =>
    obtain ⟨A', B', found, -, hB⟩ := h.splitFirst? hx hA
    rw [hA] at hs
    rw [found]
    dsimp only at hs ⊢
    have same : Text.occursIn x B' = Text.occursIn x p.2 := hB.occursIn hx
    unfold Text.occursIn at same
    cases hp : Text.splitFirst? x p.2 with
    | some q => rw [hp] at hs; cases hs
    | none =>
      rw [hp] at same
      cases hB' : Text.splitFirst? x B' with
      | some q => rw [hB'] at same; cases same
      | none => rfl

/-- Behind text in which the first occurrence does not begin it is still the first. -/
theorem splitFirst?_of_append {u v a b : Text} (h : Text.splitFirst? x (u ++ v) = some (u ++ a, b)) :
    Text.splitFirst? x v = some (a, b) := by
  induction u with
  | nil => exact h
  | cons c u ih =>
    rw [List.cons_append, Text.splitFirst?] at h
    split at h
    · cases h
    · obtain ⟨⟨p, q⟩, hp, heq⟩ := Option.map_eq_some_iff.1 h
      cases heq
      exact ih hp

/-- The number of characters that are not blank. -/
def solids (t : Text) : Nat := t.countP (!isBlank ·)

theorem solids_blanks {g : Text} (h : ∀ c ∈ g, isBlank c = true) : solids g = 0 := by
  rw [solids, List.countP_eq_zero]
  intro c hc
  simp [h c hc]

theorem Respaced.solids (h : Respaced t t') : Text.solids t' = Text.solids t := by
  induction h with
  | ends blank blank' => rw [solids_blanks blank, solids_blanks blank']
  | char solid _ ih =>
    rw [Text.solids] at ih ⊢
    rw [Text.solids, List.countP_cons, List.countP_cons, ih, Text.solids]
  | gap blank blank' _ _ _ ih =>
    have left := solids_blanks blank
    have right := solids_blanks blank'
    rw [Text.solids] at left right ih ⊢
    rw [Text.solids, List.countP_append, List.countP_append, left, right, ih, Text.solids]
  | word plain plain' same _ _ _ ih =>
    have all {w : Text} (h : ∀ c ∈ w, isPlain c = true) : w.countP (!isBlank ·) = w.length :=
      List.countP_eq_length.2 fun c hc => by simp [solid_of_plain (h c hc)]
    rw [Text.solids] at ih ⊢
    rw [Text.solids, List.countP_append, List.countP_append, all plain, all plain', same, ih,
      Text.solids]

end

/-- Blanks stand for the line breaks, and everything else stays. -/
inductive Rebroken : Text → Text → Prop
  | nil : Rebroken [] []
  | char {c : Char} {t t' : Text} (line : c ≠ '\n') (more : Rebroken t t') :
      Rebroken (c :: t) (c :: t')
  | newline {g t t' : Text} (blank : ∀ c ∈ g, isBlank c = true) (filled : g ≠ [])
      (more : Rebroken t t') : Rebroken ('\n' :: t) (g ++ t')

namespace Rebroken
variable {t t' u u' x : Text}

theorem append (h : Rebroken t t') (hu : Rebroken u u') : Rebroken (t ++ u) (t' ++ u') := by
  induction h with
  | nil => exact hu
  | char line _ ih => exact .char line ih
  | newline blank filled _ ih =>
    rw [List.append_assoc]
    exact .newline blank filled ih

theorem exists_append (h : Rebroken (t ++ u) x) :
    ∃ t' u', x = t' ++ u' ∧ Rebroken t t' ∧ Rebroken u u' := by
  induction t generalizing x with
  | nil => exact ⟨[], x, rfl, .nil, h⟩
  | cons c t ih =>
    rw [List.cons_append] at h
    cases h with
    | char line more =>
      obtain ⟨t', u', rfl, ht, hu⟩ := ih more
      exact ⟨c :: t', u', rfl, .char line ht, hu⟩
    | newline blank filled more =>
      obtain ⟨t', u', rfl, ht, hu⟩ := ih more
      exact ⟨_ ++ t', u', by rw [List.append_assoc], .newline blank filled ht, hu⟩

theorem eq_nil (h : Rebroken t []) : t = [] := by
  generalize hx : [] = x at h
  cases h with
  | nil => rfl
  | char => cases hx
  | newline _ filled => exact absurd (List.append_eq_nil_iff.1 hx.symm).1 filled

theorem cons_cases {c : Char} (h : Rebroken t (c :: x)) :
    (∃ u, t = c :: u ∧ c ≠ '\n' ∧ Rebroken u x) ∨
      ∃ g u y, t = '\n' :: u ∧ x = g ++ y ∧ (∀ d ∈ c :: g, isBlank d = true) ∧ Rebroken u y := by
  generalize hx : c :: x = z at h
  cases h with
  | nil => cases hx
  | char line more =>
    cases hx
    exact .inl ⟨_, rfl, line, more⟩
  | newline blank filled more =>
    obtain ⟨b, g, rfl⟩ := List.exists_cons_of_ne_nil filled
    cases hx
    exact .inr ⟨g, _, _, rfl, rfl, blank, more⟩

theorem eq_of_not_mem (h : Rebroken t x) (hn : '\n' ∉ t) : x = t := by
  induction h with
  | nil => rfl
  | char _ _ ih => rw [ih fun hc => hn (List.mem_cons_of_mem _ hc)]
  | newline => exact absurd List.mem_cons_self hn

theorem of_not_mem (hn : '\n' ∉ t) : Rebroken t t := by
  induction t with
  | nil => exact .nil
  | cons c t ih =>
    simp only [List.mem_cons, not_or] at hn
    exact .char (Ne.symm hn.1) (ih hn.2)

theorem respaced (h : Rebroken t t') : Respaced t t' := by
  induction h with
  | nil => exact .ends (by simp) (by simp)
  | @char c t t' _ _ ih =>
    cases hc : isBlank c with
    | false => exact .char hc ih
    | true => exact .blank hc ih
  | newline blank filled _ ih =>
    have cut : ∀ c ∈ ['\n'], isBlank c = true := List.forall_mem_singleton.2 (by decide)
    exact .gap (g := ['\n']) cut blank (by simp) filled ih

/-- The words stay, whatever part of the first one has been read. -/
theorem words_eq (h : Rebroken t t') (w : Text) : words (w ++ t') = words (w ++ t) := by
  induction h generalizing w with
  | nil => rfl
  | @char c t t' _ _ ih => simpa using ih (w ++ [c])
  | @newline g t t' blank filled _ ih =>
    obtain ⟨b, g, rfl⟩ := List.exists_cons_of_ne_nil filled
    have rest := ih []
    have cut : isBlank '\n' = true := by decide
    rw [List.nil_append, List.nil_append] at rest
    rw [List.cons_append, words_append_blank (blank b List.mem_cons_self), words_append_blank cut,
      words_blanks_append fun c hc => blank c (List.mem_cons_of_mem _ hc), rest]

end Rebroken

end HostSql.Text
