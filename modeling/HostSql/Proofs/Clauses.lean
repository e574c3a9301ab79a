import HostSql.Formatter
import HostSql.Proofs.Text.Respaced

/-! The formatter that puts clauses on lines of their own. It sees no more of a text than its words
and gives them back, so formatting its own output again changes nothing. -/
namespace HostSql.Formatter
open Text (Respaced isPlain)

def cased (w : Text) : Text := if isClause w then w.upper else w

/-- A word behind another one. -/
def following (w : Text) : Text := (if isClause w then '\n' else ' ') :: cased w

/-- Words as they are written in the end. -/
def phrase : List Text → Text
  | [] => []
  | w :: ws => cased w ++ ws.flatMap following

section
variable {c : Config} {t s w : Text} {ws : List Text}

theorem clauses_eq_ok_iff : clauses c t = .ok s ↔ t.words ≠ [] ∧ s = phrase t.words := by
  unfold clauses
  split
  · next h => simp [h]
  · next w ws h =>
    rw [h]
    simp only [Except.ok.injEq, ne_eq, reduceCtorEq, not_false_eq_true, true_and]
    exact eq_comm

theorem upper_of_isClause (h : isClause w = true) :
    w.upper ∈ ["SELECT".toList, "FROM".toList, "WHERE".toList, "JOIN".toList] := by
  simp only [isClause, List.contains_iff_mem, List.mem_cons, List.not_mem_nil, or_false] at h ⊢
  have back {v : String} (h : String.ofList w.upper = v) : w.upper = v.toList := by
    rw [← h, String.toList_ofList]
  rcases h with h | h | h | h
  · exact .inl (back h)
  · exact .inr (.inl (back h))
  · exact .inr (.inr (.inl (back h)))
  · exact .inr (.inr (.inr (back h)))

/-- A clause in upper case is a clause that stays as it is. -/
theorem fixed_of_isClause (h : isClause w = true) :
    isClause w.upper = true ∧ cased w.upper = w.upper := by
  have fixed : ∀ v ∈ ["SELECT".toList, "FROM".toList, "WHERE".toList, "JOIN".toList],
      isClause v = true ∧ cased v = v := by
    decide
  exact fixed _ (upper_of_isClause h)

theorem isClause_cased (w : Text) : isClause (cased w) = isClause w := by
  unfold cased
  split
  · next h => rw [h, (fixed_of_isClause h).1]
  · rfl

theorem cased_cased (w : Text) : cased (cased w) = cased w := by
  by_cases h : isClause w = true
  · have upper : cased w = w.upper := if_pos h
    rw [upper, (fixed_of_isClause h).2]
  · have same : cased w = w := if_neg h
    rw [same, same]

theorem phrase_cased (ws : List Text) : phrase (ws.map cased) = phrase ws := by
  have each (w : Text) : following (cased w) = following w := by
    rw [following, isClause_cased, cased_cased, following]
  cases ws with
  | nil => rfl
  | cons w ws =>
    simp only [phrase, List.map_cons, cased_cased, List.flatMap_map, each]

theorem eq_of_toUpper {c d : Char} (hd : d.val + ('a'.val - 'A'.val) = d.toLower.val)
    (h : c.toUpper = d) : c = d ∨ c = d.toLower := by
  unfold Char.toUpper at h
  split at h
  · right
    apply Char.ext
    rw [← hd, ← h]
    dsimp only
    rw [UInt32.add_assoc]
    simp
  · exact .inl h

/-- The letters of a clause mean nothing to what may stand around a word. -/
theorem isPlain_of_isClause {x : Char} (h : isClause w = true) (hx : x ∈ w) : isPlain x = true := by
  have letter : x.toUpper ∈ w.upper := List.mem_map_of_mem hx
  have plain : ∀ v ∈ ["SELECT".toList, "FROM".toList, "WHERE".toList, "JOIN".toList],
      v.all (fun d => d.val + ('a'.val - 'A'.val) == d.toLower.val && isPlain d &&
        isPlain d.toLower) = true := by
    decide
  have of_letter := List.all_eq_true.1 (plain _ (upper_of_isClause h)) _ letter
  simp only [Bool.and_eq_true, beq_iff_eq] at of_letter
  obtain ⟨⟨lower, here⟩, there⟩ := of_letter
  rcases eq_of_toUpper lower rfl with same | same <;> rw [same]
  · exact here
  · exact there

theorem isPlain_cased {x : Char} (h : isClause w = true) (hx : x ∈ cased w) : isPlain x = true :=
  isPlain_of_isClause ((isClause_cased w).trans h) hx

theorem length_cased (w : Text) : (cased w).length = w.length := by
  unfold cased
  split
  · exact List.length_map ..
  · rfl

theorem cased_ne_nil (hw : w ≠ []) : cased w ≠ [] := by
  rw [← List.length_pos_iff, length_cased]
  exact List.length_pos_iff.2 hw

theorem solid_cased (h : ∀ x ∈ w, isBlank x = false) : ∀ x ∈ cased w, isBlank x = false := by
  intro x hx
  by_cases hc : isClause w = true
  · exact Text.solid_of_plain (isPlain_cased hc hx)
  · rw [cased, if_neg hc] at hx
    exact h x hx

theorem following_eq (w : Text) : ∃ b, isBlank b = true ∧ following w = b :: cased w := by
  unfold following
  split
  · exact ⟨'\n', by decide, rfl⟩
  · exact ⟨' ', by decide, rfl⟩

theorem words_cased (hw : w ≠ []) (h : ∀ x ∈ w, isBlank x = false) : (cased w).words = [cased w] :=
  Text.words_solid (solid_cased h) (cased_ne_nil hw)

theorem words_following (h : ∀ w ∈ ws, w ≠ [] ∧ ∀ x ∈ w, isBlank x = false) (u : Text) :
    (u ++ ws.flatMap following).words = u.words ++ ws.map cased := by
  induction ws generalizing u with
  | nil => simp
  | cons w ws ih =>
    obtain ⟨b, blank, hb⟩ := following_eq w
    obtain ⟨filled, solid⟩ := h w List.mem_cons_self
    rw [List.flatMap_cons, hb, List.cons_append, Text.words_append_blank blank,
      ih (fun v hv => h v (List.mem_cons_of_mem _ hv)), words_cased filled solid]
    rfl

theorem words_phrase (h : ∀ w ∈ ws, w ≠ [] ∧ ∀ x ∈ w, isBlank x = false) :
    (phrase ws).words = ws.map cased := by
  cases ws with
  | nil => rfl
  | cons w ws =>
    obtain ⟨filled, solid⟩ := h w List.mem_cons_self
    rw [phrase, words_following fun v hv => h v (List.mem_cons_of_mem _ hv),
      words_cased filled solid]
    rfl

theorem solid_of_mem_words (h : w ∈ t.words) : w ≠ [] ∧ ∀ x ∈ w, isBlank x = false := by
  obtain ⟨hm, filled⟩ := List.mem_filter.1 h
  exact ⟨by simpa using filled, Text.of_mem_splitWhere hm⟩

theorem ended_of_solid (hw : w ≠ []) (h : ∀ x ∈ w, isBlank x = false) : Text.Ended w :=
  ⟨w.getLast hw, List.getLast?_eq_some_getLast hw, h _ (List.getLast_mem hw)⟩

theorem newline_of_solid (h : ∀ x ∈ w, isBlank x = false) : '\n' ∉ w := fun hm =>
  absurd (h _ hm) (by decide)

theorem tidyFrom_cased (hw : w ≠ []) (h : ∀ x ∈ w, isBlank x = false) (solid : Bool) (u : Text) :
    Text.tidyFrom solid (cased w ++ u) = Text.tidyFrom true u := by
  have solid' := solid_cased h
  exact Text.tidyFrom_append (newline_of_solid solid') (ended_of_solid (cased_ne_nil hw) solid') _ _

theorem tidyFrom_following (h : ∀ w ∈ ws, w ≠ [] ∧ ∀ x ∈ w, isBlank x = false) :
    Text.tidyFrom true (ws.flatMap following) = true := by
  induction ws with
  | nil => rfl
  | cons w ws ih =>
    obtain ⟨filled, solid⟩ := h w List.mem_cons_self
    obtain ⟨b, -, hb⟩ := following_eq w
    have rest := ih fun v hv => h v (List.mem_cons_of_mem _ hv)
    rw [List.flatMap_cons, hb, List.cons_append, Text.tidyFrom]
    split <;> simp [tidyFrom_cased filled solid, rest]

/-- The lines of formatted text end with its words. -/
theorem tidy_clauses (h : clauses c t = .ok s) : Text.tidyFrom false s = true := by
  obtain ⟨filled, rfl⟩ := clauses_eq_ok_iff.1 h
  have solid : ∀ w ∈ t.words, w ≠ [] ∧ ∀ x ∈ w, isBlank x = false := fun w hw => solid_of_mem_words hw
  generalize t.words = ws at *
  cases ws with
  | nil => exact absurd rfl filled
  | cons w ws =>
    obtain ⟨first, rest⟩ := List.forall_mem_cons.1 solid
    rw [phrase, tidyFrom_cased first.1 first.2]
    exact tidyFrom_following rest

/-- Any text with the words of formatted text is formatted to that text. -/
theorem clauses_of_words {t' : Text} (h : clauses c t = .ok s) (hw : t'.words = s.words) :
    clauses c t' = .ok s := by
  obtain ⟨filled, rfl⟩ := clauses_eq_ok_iff.1 h
  rw [words_phrase fun w hm => solid_of_mem_words hm] at hw
  refine clauses_eq_ok_iff.2 ⟨?_, ?_⟩
  · rw [hw]
    simpa using filled
  · rw [hw, phrase_cased]

/-- From one word on the formatted text is the text with other blanks and clauses in upper case. -/
theorem respaced_word (w r : Text) (stop : r.head?.all isBlank = true) :
    Respaced (w ++ r) (cased w ++ r.words.flatMap following) := by
  have more : Respaced r (r.words.flatMap following) := by
    by_cases none : r.words = []
    · rw [none]
      exact .ends (Text.blank_of_words none) (by simp)
    obtain ⟨g, v, u, rfl, lead, filled, solid', stop'⟩ := Text.exists_first_word none
    have gap : g ≠ [] := by
      rintro rfl
      obtain ⟨x, v, rfl⟩ := List.exists_cons_of_ne_nil filled
      have := solid' x List.mem_cons_self
      simp [this] at stop
    obtain ⟨b, blank, hb⟩ := following_eq v
    have shorter : u.length < (g ++ (v ++ u)).length := by
      have := List.length_pos_iff.2 filled
      simp only [List.length_append]
      omega
    have behind := respaced_word v u stop'
    rw [Text.words_blanks_append lead, Text.words_cons filled solid' stop', List.flatMap_cons, hb,
      List.cons_append]
    have one : ∀ x ∈ [b], isBlank x = true := by simpa using blank
    exact .gap lead one gap (by simp) behind
  by_cases hc : isClause w = true
  · refine .word (fun x hx => isPlain_of_isClause hc hx) (fun x hx => isPlain_cased hc hx)
      (length_cased w) stop ?_ more
    cases r.words with
    | nil => rfl
    | cons v ws =>
      obtain ⟨b, blank, hb⟩ := following_eq v
      rw [List.flatMap_cons, hb]
      exact blank
  · rw [cased, if_neg hc]
    exact more.append_left w
termination_by r.length

/-- Behind a blank the formatted text is the text with other blanks and clauses in upper case. -/
theorem respaced_clauses (h : clauses c t = .ok s) : Respaced (' ' :: t) (' ' :: s) := by
  obtain ⟨filled, rfl⟩ := clauses_eq_ok_iff.1 h
  have blank : isBlank ' ' = true := by decide
  obtain ⟨g, w, r, rfl, lead, filled, solid, stop⟩ := Text.exists_first_word filled
  rw [Text.words_blanks_append lead, Text.words_cons filled solid stop, phrase]
  have gap : ∀ x ∈ ' ' :: g, isBlank x = true := by simpa [blank] using lead
  have one : ∀ x ∈ [' '], isBlank x = true := by simpa using blank
  exact .gap gap one (by simp) (by simp) (respaced_word w r stop)

end
end HostSql.Formatter
