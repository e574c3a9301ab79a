import HostSql.Proofs.Mask.Reformat

/-! What unmasking makes of a text, whatever a formatter has done to it: the identifiers stand apart
from each other in some order, and each expression comes to stand where its identifier stood. -/
namespace HostSql.Mask

theorem exists_gap {s n : Nat} {t x v : Text} (hx : x ≠ []) (h : s ≤ n) (hv : t.drop (n - s) = x ++ v) :
    ∃ gap, t = gap ++ (x ++ v) ∧ n = s + gap.length := by
  have inside : n - s ≤ t.length := by
    by_contra beyond
    rw [List.drop_of_length_le (by omega)] at hv
    exact hx (List.append_eq_nil_iff.1 hv.symm).1
  refine ⟨t.take (n - s), ?_, ?_⟩
  · rw [← hv, List.take_append_drop]
  · rw [List.length_take]
    omega

/-- Putting expressions back, from the front of a text that starts at character `s`: every identifier
is where it was found, and what is between them stays. -/
theorem exists_write_of_restore {s : Nat} {t r : Text} {hits : List Hit}
    (filled : ∀ hit ∈ hits, hit.placeholder.token ≠ [])
    (found : ∀ hit ∈ hits, s ≤ hit.start → ∃ v, t.drop (hit.start - s) = hit.placeholder.token ++ v)
    (h : restore s t hits = some r) :
    ∃ lead ps, t = write (·.token) lead ps ∧ r = write (·.expression) lead ps ∧
      ps.map (·.1) = hits.map (·.placeholder) ∧
      ∀ before p u after, ps = before ++ (p, u) :: after →
        ⟨s + (write (·.token) lead before).length, p⟩ ∈ hits := by
  induction hits generalizing s t r with
  | nil =>
    rw [restore] at h
    cases h
    exact ⟨t, [], by simp, by simp, rfl, by simp⟩
  | cons hit hits ih =>
    obtain ⟨start, p⟩ := hit
    obtain ⟨token, others⟩ := List.forall_mem_cons.1 filled
    have ahead := le_start_of_restore h
    obtain ⟨v, hv⟩ := found _ List.mem_cons_self ahead
    obtain ⟨gap, rfl, rfl⟩ := exists_gap token ahead hv
    rw [restore_cons, List.drop_left] at h
    obtain ⟨r', restored, rfl⟩ := Option.map_eq_some_iff.1 h
    have behind : ∀ next ∈ hits, s + gap.length + p.token.length ≤ next.start →
        ∃ w, v.drop (next.start - (s + gap.length + p.token.length)) = next.placeholder.token ++ w := by
      intro next hn further
      obtain ⟨w, hw⟩ := found next (List.mem_cons_of_mem _ hn) (by omega)
      have apart : next.start - s =
          gap.length + (p.token.length + (next.start - (s + gap.length + p.token.length))) := by
        omega
      rw [apart, ← List.drop_drop, List.drop_left, ← List.drop_drop, List.drop_left] at hw
      exact ⟨w, hw⟩
    obtain ⟨lead, ps, rfl, rfl, placeholders, places⟩ := ih others behind restored
    refine ⟨gap, (p, lead) :: ps, ?_, ?_, ?_, ?_⟩
    · rw [write_cons]
    · rw [write_cons, List.append_assoc]
    · rw [List.map_cons, List.map_cons, placeholders]
    · intro before q u after hs
      cases before with
      | nil =>
        cases hs
        rw [write_nil]
        exact List.mem_cons_self
      | cons y before =>
        obtain ⟨rfl, rest⟩ := List.cons.inj hs
        have place := places before q u after rest
        rw [write_cons, List.length_append, List.length_append, ← Nat.add_assoc, ← Nat.add_assoc]
        exact List.mem_cons_of_mem _ place

/-- Unmasked text is the formatted text with its identifiers, in the order in which they stand there,
replaced by their expressions. Each placeholder is one of them, and none comes twice. -/
theorem exists_write_of_unmask {t sql : Text} {qs : List Placeholder}
    (named : ∀ q ∈ qs, q.token ≠ []) (h : unmask t qs = some sql) :
    ∃ lead ps, t = write (·.token) lead ps ∧ sql = write (·.expression) lead ps ∧
      (ps.map (·.1)).Perm qs ∧ InPlace lead ps := by
  have only := only_of_unmask h
  rw [unmask_eq_restore only] at h
  generalize sorted : (qs.map fun p => (⟨firstAt p.token t, p⟩ : Hit)).mergeSort _ = hits at h
  have perm : hits.Perm (qs.map fun p => ⟨firstAt p.token t, p⟩) := sorted ▸ List.mergeSort_perm _ _
  have origin : ∀ hit ∈ hits, hit.placeholder ∈ qs ∧ hit.start = firstAt hit.placeholder.token t := by
    intro hit hh
    obtain ⟨p, hp, rfl⟩ := List.mem_map.1 (perm.subset hh)
    exact ⟨hp, rfl⟩
  have found : ∀ hit ∈ hits, 0 ≤ hit.start →
      ∃ v, t.drop (hit.start - 0) = hit.placeholder.token ++ v := by
    intro hit hh _
    obtain ⟨mem, start⟩ := origin hit hh
    obtain ⟨b, a, first, whole, -⟩ := firstAt_spec (only _ mem)
    refine ⟨a, ?_⟩
    rw [start, first, Nat.sub_zero]
    conv => lhs; rw [whole]
    rw [List.drop_left]
  obtain ⟨lead, ps, rfl, rfl, placeholders, places⟩ :=
    exists_write_of_restore (fun hit hh => named _ (origin hit hh).1) found h
  refine ⟨lead, ps, rfl, rfl, ?_, ?_⟩
  · rw [placeholders]
    have same := perm.map (·.placeholder)
    rwa [List.map_map, show ((·.placeholder) ∘ fun p => (⟨firstAt p.token
      (write (·.token) lead ps), p⟩ : Hit)) = id from rfl, List.map_id] at same
  · intro before p u after hs
    have place := places before p u after hs
    obtain ⟨mem, start⟩ := origin _ place
    refine splitFirst?_of_firstAt (only p mem) ?_ ?_
    · rw [hs, write_append]
    · rw [← start, Nat.zero_add]

end HostSql.Mask
