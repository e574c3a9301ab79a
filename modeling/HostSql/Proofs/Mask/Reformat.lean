import HostSql.Proofs.Mask.Braces
import HostSql.Proofs.Mask.Tokens
import Mathlib.Algebra.GroupWithZero.Nat

/-! Masking what came out of unmasking. If a formatter has only put other blanks between words, the
expressions are found again where they were put back, and get the same identifiers. -/
namespace HostSql.Mask
open Text (Respaced Within Rebroken Searched)

/-- Texts around the same identifiers, compared by `inner` and the last of them by `last`. -/
inductive Along (inner last : Text → Text → Prop) :
    Text → List (Placeholder × Text) → Text → List (Placeholder × Text) → Prop
  | last {t t' : Text} (h : last t t') : Along inner last t [] t' []
  | next {p : Placeholder} {t t' u u' : Text} {ps ps' : List (Placeholder × Text)} (h : inner t t')
      (more : Along inner last u ps u' ps') : Along inner last t ((p, u) :: ps) t' ((p, u') :: ps')

/-- Every identifier is found first at its own place. -/
def InPlace (lead : Text) (ps : List (Placeholder × Text)) : Prop :=
  ∀ before p t after, ps = before ++ (p, t) :: after →
    Text.splitFirst? p.token (write (·.token) lead ps) =
      some (write (·.token) lead before, write (·.token) t after)

section
variable {inner last : Text → Text → Prop} {lead lead' t t' x g : Text} {p : Placeholder}
  {ps ps' before' after' : List (Placeholder × Text)} {put : Placeholder → Text}

namespace Along

theorem placeholders (h : Along inner last lead ps lead' ps') : ps'.map (·.1) = ps.map (·.1) := by
  induction h with
  | last => rfl
  | next _ _ ih => rw [List.map_cons, List.map_cons, ih]

theorem forall_placeholder {P : Placeholder → Prop} (h : Along inner last lead ps lead' ps')
    (hp : ∀ x ∈ ps, P x.1) : ∀ x ∈ ps', P x.1 := by
  intro x hx
  have kept : x.1 ∈ ps.map (·.1) := h.placeholders ▸ List.mem_map_of_mem hx
  obtain ⟨y, hy, heq⟩ := List.mem_map.1 kept
  exact heq ▸ hp y hy

theorem exists_split (h : Along inner last lead ps lead' (before' ++ (p, t') :: after')) :
    ∃ before t after, ps = before ++ (p, t) :: after ∧
      Along inner inner lead before lead' before' ∧ Along inner last t after t' after' := by
  induction before' generalizing lead lead' ps with
  | nil =>
    cases h with
    | next h more => exact ⟨[], _, _, rfl, .last h, more⟩
  | cons x before' ih =>
    cases h with
    | next h more =>
      obtain ⟨before, t, after, rfl, first, rest⟩ := ih more
      exact ⟨_ :: before, t, after, rfl, .next h first, rest⟩

theorem solids (hi : ∀ t t', inner t t' → Text.solids t' = Text.solids t)
    (hl : ∀ t t', last t t' → Text.solids t' = Text.solids t)
    (h : Along inner last lead ps lead' ps') :
    Text.solids (write put lead' ps') = Text.solids (write put lead ps) := by
  induction h with
  | last h => simpa using hl _ _ h
  | next h _ ih =>
    unfold Text.solids at *
    rw [write_cons, write_cons]
    simp only [List.countP_append]
    rw [hi _ _ h, ih]

theorem respaced (h : Along Within Respaced lead ps lead' ps') :
    Respaced (write put lead ps) (write put lead' ps') := by
  induction h with
  | last h => simpa using h
  | next h _ ih =>
    rw [write_cons, write_cons]
    exact h _ _ (ih.append_left _)

theorem rebroken (hp : ∀ x ∈ ps, '\n' ∉ put x.1) (h : Along Rebroken Rebroken lead ps lead' ps') :
    Rebroken (write put lead ps) (write put lead' ps') := by
  induction h with
  | last h => simpa using h
  | next h _ ih =>
    rw [write_cons, write_cons]
    refine h.append (.append (.of_not_mem (hp _ List.mem_cons_self)) (ih fun x hx => ?_))
    exact hp x (List.mem_cons_of_mem _ hx)

/-- A text is split at the same expressions if the texts around them are respaced. -/
theorem clear (hi : ∀ t t', inner t t' → Respaced t t') (hl : ∀ t t', last t t' → Respaced t t')
    (h : Along inner last lead ps lead' ps')
    (hc : Clear lead (ps.map fun x => (x.1.expression, x.2))) :
    Clear lead' (ps'.map fun x => (x.1.expression, x.2)) := by
  induction h with
  | last h =>
    exact (clear_respaced (fun _ _ => unclosed_respaced) (hl _ _ h)).trans hc
  | next h _ ih =>
    exact ⟨(clear_respaced (fun _ _ _ => rfl) (hi _ _ h)).trans hc.1, hc.2.1, ih hc.2.2⟩

end Along

/-- Text that is respaced around identifiers found in their places. -/
theorem exists_along_respaced (named : ∀ x ∈ ps, Searched x.1.token) (own : InPlace lead ps)
    (h : Respaced (write (·.token) lead ps) x) :
    ∃ lead' ps', x = write (·.token) lead' ps' ∧ Along Within Respaced lead ps lead' ps' := by
  induction ps generalizing lead x with
  | nil => exact ⟨x, [], by simp, .last (by simpa using h)⟩
  | cons y ps ih =>
    obtain ⟨p, t⟩ := y
    have first := own [] p t ps rfl
    rw [write_nil] at first
    obtain ⟨lead', x', found, before, behind⟩ := h.splitFirst? (named _ List.mem_cons_self) first
    have rest : InPlace t ps := fun before' p' t' after' hs => by
      have := own ((p, t) :: before') p' t' after' (by rw [hs]; rfl)
      rw [write_cons, write_cons, ← List.append_assoc, ← List.append_assoc] at this
      exact Text.splitFirst?_of_append this
    obtain ⟨t', ps', rfl, more⟩ := ih (fun y hy => named y (List.mem_cons_of_mem _ hy)) rest behind
    exact ⟨lead', (p, t') :: ps', by rw [write_cons]; exact (Text.splitFirst?_spec found).1,
      .next before more⟩

/-- Two places of a needle with as many characters before them that are not blank are the same. -/
theorem eq_of_solids {u v u' v' : Text} (hx : Searched x) (h : u ++ (x ++ v) = u' ++ (x ++ v'))
    (same : Text.solids u = Text.solids u') : u = u' ∧ v = v' := by
  have longer {u v u' v' z : Text} (hz : u' = u ++ z) (h : x ++ v = z ++ (x ++ v'))
      (same : Text.solids u = Text.solids u') : z = [] := by
    cases z with
    | nil => rfl
    | cons c z =>
      obtain ⟨d, y, rfl⟩ := List.exists_cons_of_ne_nil hx.ne_nil
      have solid := hx.solid d List.mem_cons_self
      rw [List.cons_append, List.cons_append] at h
      rw [hz, Text.solids, Text.solids, List.countP_append, List.countP_cons, ← (List.cons.inj h).1,
        solid] at same
      simp at same
  rcases List.append_eq_append_iff.1 h with ⟨z, hu, hv⟩ | ⟨z, hu, hv⟩
  · have none := longer hu hv same
    rw [none, List.append_nil] at hu
    rw [none, List.nil_append] at hv
    exact ⟨hu.symm, List.append_cancel_left hv⟩
  · have none := longer hu hv same.symm
    rw [none, List.append_nil] at hu
    rw [none, List.nil_append] at hv
    exact ⟨hu, (List.append_cancel_left hv).symm⟩

theorem InPlace.along (named : ∀ x ∈ ps, Searched x.1.token) (own : InPlace lead ps)
    (h : Along Within Respaced lead ps lead' ps') : InPlace lead' ps' := by
  rintro before' p t' after' rfl
  have whole : Respaced (write (·.token) lead ps)
      (write (·.token) lead' (before' ++ (p, t') :: after')) := h.respaced
  obtain ⟨before, t, after, rfl, first, -⟩ := h.exists_split
  have needle : Searched p.token := named (p, t) (by simp)
  obtain ⟨u, v, found, within, -⟩ := whole.splitFirst? needle (own before p t after rfl)
  have count : Text.solids u = Text.solids (write (·.token) lead' before') := by
    rw [within.respaced.solids]
    exact (first.solids (fun _ _ h => h.respaced.solids) fun _ _ h => h.respaced.solids).symm
  have place := (Text.splitFirst?_spec found).1
  rw [write_append] at place
  obtain ⟨rfl, rfl⟩ := eq_of_solids needle place.symm count
  exact found

/-! ## Unmasking the formatted text -/

/-- Identifiers in their places give way to their expressions there. -/
theorem unmask_inPlace (named : ∀ x ∈ ps, ∃ n, x.1.token = token n)
    (braced : ∀ x ∈ ps, x.1.expression.head? = some '{')
    (only : ∀ q ∈ ps.map (·.1), (Text.splitOnly? q.token (write (·.token) lead ps)).isSome = true)
    (own : InPlace lead ps) :
    unmask (write (·.token) lead ps) (ps.map (·.1)) = some (write (·.expression) lead ps) := by
  have found {before after : List (Placeholder × Text)} {p : Placeholder} {t : Text}
      (hs : ps = before ++ (p, t) :: after) :
      firstAt p.token (write (·.token) lead ps) = (write (·.token) lead before).length := by
    have first := own before p t after hs
    obtain ⟨⟨b, a⟩, ho⟩ := Option.isSome_iff_exists.1 (only p (by simp [hs]))
    have same := Text.splitFirst?_of_splitOnly? ho
    rw [first] at same
    cases same
    simp [firstAt, ho]
  have ascending : (ps.map (·.1)).Pairwise fun p q =>
      firstAt p.token (write (·.token) lead ps) ≤ firstAt q.token (write (·.token) lead ps) := by
    rw [List.pairwise_map]
    refine pairwise_of_split fun before x middle y after hs => ?_
    have hs' : ps = (before ++ x :: middle) ++ y :: after := by
      rw [hs, List.append_assoc, List.cons_append]
    rw [found hs, found hs', write_append, List.length_append]
    omega
  rw [unmask_of_ascending only ascending, List.map_map]
  refine (restore_eq_some_iff (fun p => firstAt p.token (write (·.token) lead ps)) lead ps (s := 0)
    braced ?_ ?_).2 ?_
  · intro before p t after hs
    rw [found hs]
    omega
  · intro x hx _
    obtain ⟨before, after, hs⟩ := List.append_of_mem hx
    obtain ⟨n, hn⟩ := named x hx
    have whole : write (·.token) lead ps =
        write (·.token) lead before ++ (x.1.token ++ write (·.token) x.2 after) :=
      (congrArg (write (·.token) lead) hs).trans (write_append _ _ _ _ _ _)
    obtain ⟨body, shape, -⟩ := token_shape n
    rw [found (p := x.1) (t := x.2) hs, whole, Nat.sub_zero,
      List.getElem?_append_right (Nat.le_refl _), hn, shape]
    simp
  · intro before p t after hs
    rw [found hs]
    omega

end

section
variable {raw formatted sql lead : Text} {m : Masked} {ps : List (Placeholder × Text)}

theorem named_pieces (raw : Text) : ∀ x ∈ pieces raw, ∃ n, x.1.token = token n := by
  intro x hx
  obtain ⟨ks, tokens, -, -, -⟩ := number_spec raw 0 ((split raw).2.map (·.1))
  rw [← placeholders_of_pieces, List.map_map] at tokens
  have : x.1.token ∈ ks.map token := tokens ▸ List.mem_map_of_mem hx
  obtain ⟨n, -, hn⟩ := List.mem_map.1 this
  exact ⟨n, hn.symm⟩

theorem ended_pieces (raw : Text) : ∀ x ∈ pieces raw, Text.Ended x.1.expression := by
  intro x hx
  have part : (x.1.expression, x.2) ∈ (split raw).2 :=
    parts_of_pieces raw ▸ List.mem_map.2 ⟨x, hx, rfl⟩
  exact ⟨'}', ((clear_split raw).braced _ part).last, by decide⟩

/-- Where an identifier is found, the text parts. -/
theorem splitFirst?_of_firstAt {needle t before after : Text}
    (only : (Text.splitOnly? needle t).isSome = true) (whole : t = before ++ (needle ++ after))
    (start : firstAt needle t = before.length) :
    Text.splitFirst? needle t = some (before, after) := by
  obtain ⟨⟨b, a⟩, found⟩ := Option.isSome_iff_exists.1 only
  have width : b.length = before.length := by
    rw [← start]
    simp [firstAt, found]
  have place := (Text.splitOnly?_spec found).1
  obtain ⟨same, rest⟩ := List.append_inj (place.symm.trans whole) width
  rw [Text.splitFirst?_of_splitOnly? found, same, List.append_cancel_left rest]

theorem inPlace_of_unmask (h : mask raw = some m)
    (back : unmask m.text m.placeholders = some raw) : InPlace (split raw).1 (pieces raw) := by
  intro before p t after hs
  obtain ⟨hp, place⟩ := own_place h hs
  have found := (unmask_mask_iff_firstAt h).1 back before p t after hs
  rw [← (mask_spec h).1]
  exact splitFirst?_of_firstAt ((mask_spec h).2.2 p hp) place found

theorem blank_space : ∀ c ∈ [' '], isBlank c = true := List.forall_mem_singleton.2 (by decide)

theorem InPlace.cons_blank (named : ∀ x ∈ ps, Searched x.1.token) (own : InPlace lead ps) :
    InPlace (' ' :: lead) ps := by
  intro before p t after hs
  have needle : Searched p.token := named (p, t) (by simp [hs])
  have passed := Text.splitFirst?_append needle.ne_nil (needle.not_blank blank_space)
    (write (·.token) lead ps)
  rw [own before p t after hs] at passed
  exact passed

theorem InPlace.of_cons_blank (own : InPlace (' ' :: lead) ps) : InPlace lead ps :=
  fun before p t after hs => Text.splitFirst?_of_append (u := [' ']) (own before p t after hs)

theorem only_of_unmask {t : Text} {qs : List Placeholder} (h : unmask t qs = some sql) :
    ∀ q ∈ qs, (Text.splitOnly? q.token t).isSome = true := by
  obtain ⟨hits, found, -⟩ := Option.bind_eq_some_iff.1 h
  clear h
  induction qs generalizing hits with
  | nil => simp
  | cons q qs ih =>
    rw [List.mapM_cons] at found
    obtain ⟨hit, first, found⟩ := Option.bind_eq_some_iff.1 found
    obtain ⟨rest, more, -⟩ := Option.bind_eq_some_iff.1 found
    intro p hp
    rcases List.mem_cons.1 hp with rfl | hp
    · rw [← Option.isSome_map, first]
      rfl
    · exact ih rest more p hp

/-- What is unmasked from respaced text has the expressions between texts that are respaced. The
blanks in front need not be respaced, so both texts are taken behind a blank. -/
theorem exists_along_of_unmask (h : mask raw = some m)
    (back : unmask m.text m.placeholders = some raw)
    (respaced : Respaced (' ' :: m.text) (' ' :: formatted))
    (hs : unmask formatted m.placeholders = some sql) :
    ∃ lead ps, formatted = write (·.token) lead ps ∧ sql = write (·.expression) lead ps ∧
      Along Within Respaced (' ' :: (split raw).1) (pieces raw) (' ' :: lead) ps := by
  obtain ⟨text, placeholders, only⟩ := mask_spec h
  have needles : ∀ x ∈ pieces raw, Searched x.1.token := fun x hx => by
    obtain ⟨n, hn⟩ := named_pieces raw x hx
    exact hn ▸ searched_token n
  have own := (inPlace_of_unmask h back).cons_blank needles
  rw [text] at respaced
  obtain ⟨lead', ps, whole, along⟩ := exists_along_respaced needles own respaced
  have same := along.placeholders
  have named := along.forall_placeholder (P := fun p => ∃ n, p.token = token n) (named_pieces raw)
  obtain ⟨lead, rfl⟩ : ∃ lead, lead' = ' ' :: lead := by
    cases lead' with
    | cons c lead => exact ⟨lead, by rw [(List.cons.inj whole).1]⟩
    | nil =>
      cases ps with
      | nil => cases whole
      | cons x ps =>
        obtain ⟨n, hn⟩ := named x List.mem_cons_self
        obtain ⟨body, shape, -⟩ := token_shape n
        rw [write_cons, List.nil_append, hn, shape] at whole
        exact absurd (List.cons.inj whole).1 (by decide)
  have formed : formatted = write (·.token) lead ps := (List.cons.inj whole).2
  have found : ∀ q ∈ ps.map (·.1), (Text.splitOnly? q.token (write (·.token) lead ps)).isSome = true := by
    rw [same, ← placeholders, ← formed]
    exact only_of_unmask hs
  refine ⟨lead, ps, formed, ?_, along⟩
  have braced := along.forall_placeholder (P := (·.expression.head? = some '{'))
    fun x hx => head_of_expression hx
  have put := unmask_inPlace named braced found
    (own.along needles along).of_cons_blank
  rw [← formed, same, ← placeholders, hs] at put
  exact Option.some.inj put

/-! ## Masking again -/

theorem count_write {c : Char} (named : ∀ x ∈ ps, c ∉ x.1.token) :
    (write (·.expression) lead ps).count c =
      (write (·.token) lead ps).count c + (ps.map (·.1.expression.count c)).sum := by
  induction ps generalizing lead with
  | nil => simp
  | cons x ps ih =>
    obtain ⟨p, t⟩ := x
    have absent : p.token.count c = 0 := List.count_eq_zero.2 (named (p, t) List.mem_cons_self)
    have rest : (write (·.expression) t ps).count c =
        (write (·.token) t ps).count c + (ps.map (·.1.expression.count c)).sum :=
      ih fun x hx => named x (List.mem_cons_of_mem _ hx)
    rw [write_cons, write_cons]
    simp only [List.count_append, List.map_cons, List.sum_cons]
    omega

theorem tidyFrom_write (flat : ∀ x ∈ ps, '\n' ∉ x.1.expression ∧ Text.Ended x.1.expression)
    (flat' : ∀ x ∈ ps, '\n' ∉ x.1.token ∧ Text.Ended x.1.token) (solid : Bool) :
    Text.tidyFrom solid (write (·.expression) lead ps) =
      Text.tidyFrom solid (write (·.token) lead ps) := by
  induction ps generalizing lead solid with
  | nil => simp
  | cons x ps ih =>
    obtain ⟨p, t⟩ := x
    obtain ⟨line, ended⟩ := flat (p, t) List.mem_cons_self
    obtain ⟨line', ended'⟩ := flat' (p, t) List.mem_cons_self
    rw [write_cons, write_cons]
    refine Text.tidyFrom_append_congr (fun solid => ?_) lead solid
    rw [Text.tidyFrom_append line ended, Text.tidyFrom_append line' ended',
      ih (fun x hx => flat x (List.mem_cons_of_mem _ hx))
        fun x hx => flat' x (List.mem_cons_of_mem _ hx)]

/-- Text whose line breaks have become blanks has them between the expressions. -/
theorem exists_along_rebroken {x : Text} (flat : ∀ x ∈ ps, '\n' ∉ x.1.expression)
    (h : Rebroken (write (·.expression) lead ps) x) :
    ∃ lead' ps', x = write (·.expression) lead' ps' ∧ Along Rebroken Rebroken lead ps lead' ps' := by
  induction ps generalizing lead x with
  | nil => exact ⟨x, [], by simp, .last (by simpa using h)⟩
  | cons y ps ih =>
    obtain ⟨p, t⟩ := y
    rw [write_cons] at h
    obtain ⟨lead', x', rfl, before, behind⟩ := h.exists_append
    obtain ⟨e, x', rfl, same, rest⟩ := behind.exists_append
    obtain ⟨t', ps', rfl, more⟩ := ih (fun y hy => flat y (List.mem_cons_of_mem _ hy)) rest
    rw [same.eq_of_not_mem (flat (p, t) List.mem_cons_self)]
    exact ⟨lead', (p, t') :: ps', by rw [write_cons], .next before more⟩

/-- More text behind the last piece. -/
theorem exists_along_append (lead : Text) (ps : List (Placeholder × Text)) (g : Text) :
    ∃ lead' ps', (∀ put, write put lead' ps' = write put lead ps ++ g) ∧
      Along (fun t t' => t' = t) (fun t t' => t' = t ++ g) lead ps lead' ps' := by
  induction ps generalizing lead with
  | nil => exact ⟨lead ++ g, [], by simp, .last rfl⟩
  | cons x ps ih =>
    obtain ⟨p, t⟩ := x
    obtain ⟨t', ps', whole, more⟩ := ih t
    exact ⟨lead, (p, t') :: ps', fun put => by simp [write_cons, whole], .next rfl more⟩

theorem newline_token {x : Text} (h : ∃ n, x = token n) : '\n' ∉ x := by
  obtain ⟨n, rfl⟩ := h
  exact fun mem => absurd ((searched_token n).solid '\n' mem) (by decide)

theorem ended_token (n : Nat) : Text.Ended (token n) :=
  ⟨'_', (searched_token n).last (token_ne_nil n), by decide⟩

/-- A text with as many line breaks as it has with the identifiers has none in an expression. -/
theorem flat_of_count (named : ∀ x ∈ ps, ∃ n, x.1.token = token n)
    (h : (write (·.expression) lead ps).count '\n' ≤ (write (·.token) lead ps).count '\n') :
    ∀ x ∈ ps, '\n' ∉ x.1.expression := by
  rw [count_write fun x hx => newline_token (named x hx)] at h
  have none : (ps.map (·.1.expression.count '\n')).sum = 0 := by omega
  exact fun x hx => List.count_eq_zero.1
    (List.sum_eq_zero_iff_forall_eq_nat.1 none _ (List.mem_map_of_mem hx))

theorem number_congr {raw raw' : Text}
    (h : ∀ k, (token k).occursIn raw' = (token k).occursIn raw) (n : Nat) (es : List Text) :
    number raw' n es = number raw n es := by
  induction es generalizing n with
  | nil => rfl
  | cons e es ih => simp only [number, fresh_congr h, ih]

/-- A text with the expressions of another one gets the identifiers of that one, if the same
identifiers stand in both. -/
theorem mask_write (braces : Clear lead (ps.map fun x => (x.1.expression, x.2)))
    (same : ps.map (·.1) = (pieces raw).map (·.1))
    (occurs : ∀ k, (token k).occursIn (write (·.expression) lead ps) = (token k).occursIn raw)
    (only : ∀ q ∈ ps.map (·.1), (Text.splitOnly? q.token (write (·.token) lead ps)).isSome = true) :
    mask (write (·.expression) lead ps) = some ⟨write (·.token) lead ps, ps.map (·.1)⟩ := by
  have parts : split (write (·.expression) lead ps) = (lead, ps.map fun x => (x.1.expression, x.2)) := by
    rw [write_parts]
    exact split_of_clear braces
  have expressions : (ps.map fun x => (x.1.expression, x.2)).map (·.1) = (split raw).2.map (·.1) := by
    have := congrArg (List.map (·.expression)) same
    rw [← parts_of_pieces, List.map_map, List.map_map]
    rwa [List.map_map, List.map_map] at this
  have numbers : number (write (·.expression) lead ps) 0
      ((ps.map fun x => (x.1.expression, x.2)).map (·.1)) = ps.map (·.1) := by
    rw [number_congr occurs, expressions, ← placeholders_of_pieces, same]
  have text : join lead (ps.map (·.1)) ((ps.map fun x => (x.1.expression, x.2)).map (·.2)) =
      write (·.token) lead ps := by
    rw [← join_pieces, List.map_map]
    rfl
  rw [mask, parts]
  simp only [numbers, text]
  rw [if_pos (List.all_eq_true.2 only)]

/-- Blanks around a text and line breaks that have become blanks do not move an expression. -/
theorem Along.clear_of_blanks {lead₁ lead₂ g g' : Text} {qs ps₁ ps₂ : List (Placeholder × Text)}
    (hg : ∀ c ∈ g, isBlank c = true) (hg' : ∀ c ∈ g', isBlank c = true)
    (start : Clear lead (qs.map fun x => (x.1.expression, x.2)))
    (along₀ : Along Within Respaced (' ' :: lead) qs (' ' :: lead') ps)
    (along₁ : Along Rebroken Rebroken lead' ps lead₁ ps₁)
    (along₂ : Along (fun t t' => t' = t) (fun t t' => t' = t ++ g') lead₁ ps₁ lead₂ ps₂) :
    Clear (g ++ lead₂) (ps₂.map fun x => (x.1.expression, x.2)) := by
  have spaced := start.of_clear fun _ => clear_cons (c := ' ') (by decide) (by decide)
  have moved := along₀.clear (fun _ _ h => h.respaced) (fun _ _ h => h) spaced
  have again := along₁.clear (fun _ _ h => h.respaced) (fun _ _ h => h.respaced)
    (moved.of_clear fun _ => (clear_cons (by decide) (by decide)).symm)
  have ends := along₂.clear (fun t t' (h : t' = t) => h ▸ .refl t')
    (fun t t' (h : t' = t ++ g') => h ▸ .append_blanks t hg') again
  exact ends.of_clear fun _ => clear_append (fun c hc => ne_brace_of_blank (hg c hc)) _

section
variable (h : mask raw = some m) (back : unmask m.text m.placeholders = some raw)
  (respaced : Respaced (' ' :: m.text) (' ' :: formatted))
  (hs : unmask formatted m.placeholders = some sql)
include h back respaced hs

theorem exists_flat_along (flat : sql.count '\n' ≤ formatted.count '\n') :
    ∃ lead ps, formatted = write (·.token) lead ps ∧ sql = write (·.expression) lead ps ∧
      Along Within Respaced (' ' :: (split raw).1) (pieces raw) (' ' :: lead) ps ∧
      (∀ x ∈ ps, ∃ n, x.1.token = token n) ∧
      ∀ x ∈ ps, '\n' ∉ x.1.expression ∧ Text.Ended x.1.expression := by
  obtain ⟨lead, ps, rfl, rfl, along⟩ := exists_along_of_unmask h back respaced hs
  have named := along.forall_placeholder (P := fun p => ∃ n, p.token = token n) (named_pieces raw)
  have ended := along.forall_placeholder (P := (Text.Ended ·.expression)) (ended_pieces raw)
  exact ⟨lead, ps, rfl, rfl, along, named, fun x hx => ⟨flat_of_count named flat x hx, ended x hx⟩⟩

/-- The lines of the unmasked text end like those of the formatted text. -/
theorem tidyFrom_unmask (flat : sql.count '\n' ≤ formatted.count '\n') (solid : Bool) :
    Text.tidyFrom solid sql = Text.tidyFrom solid formatted := by
  obtain ⟨lead, ps, rfl, rfl, -, named, inLine⟩ := exists_flat_along h back respaced hs flat
  refine tidyFrom_write inLine (fun x hx => ?_) solid
  obtain ⟨n, hn⟩ := named x hx
  exact ⟨newline_token ⟨n, hn⟩, hn ▸ ended_token n⟩

/-- The unmasked text, with blanks for its line breaks and more blanks around, has the same
expressions, and they get the same identifiers between the words of the formatted text. -/
theorem exists_mask_eq {g g' x : Text} (flat : sql.count '\n' ≤ formatted.count '\n')
    (hx : Rebroken sql x) (hg : ∀ c ∈ g, isBlank c = true) (hg' : ∀ c ∈ g', isBlank c = true) :
    ∃ m', mask (g ++ (x ++ g')) = some m' ∧ m'.placeholders = m.placeholders ∧
      m'.text.words = formatted.words := by
  obtain ⟨lead, ps, rfl, rfl, along, named, inLine⟩ := exists_flat_along h back respaced hs flat
  obtain ⟨lead₁, ps₁, rfl, along₁⟩ := exists_along_rebroken (fun x hx => (inLine x hx).1) hx
  obtain ⟨lead₂, ps₂, whole, along₂⟩ := exists_along_append lead₁ ps₁ g'
  have behind (put : Placeholder → Text) :
      write put (g ++ lead₂) ps₂ = g ++ (write put lead₁ ps₁ ++ g') := by
    rw [← whole, write, write, List.append_assoc]
  have placeholders : ps₂.map (·.1) = (pieces raw).map (·.1) := by
    rw [along₂.placeholders, along₁.placeholders, along.placeholders]
  have braces := along.clear_of_blanks hg hg' (by rw [parts_of_pieces]; exact clear_split raw)
    along₁ along₂
  have occurs (k : Nat) :
      (token k).occursIn (write (·.expression) (g ++ lead₂) ps₂) = (token k).occursIn raw := by
    have needle := searched_token k
    have inner : Respaced (' ' :: write (·.expression) (split raw).1 (pieces raw))
        (' ' :: write (·.expression) lead ps) := along.respaced
    rw [write_expression] at inner
    rw [behind, needle.occursIn_blanks_append hg, (Respaced.append_blanks _ hg').occursIn needle,
      hx.respaced.occursIn needle]
    calc (token k).occursIn (write (·.expression) lead ps)
        = (token k).occursIn ([' '] ++ write (·.expression) lead ps) :=
          (needle.occursIn_blanks_append blank_space _).symm
      _ = (token k).occursIn ([' '] ++ raw) := inner.occursIn needle
      _ = (token k).occursIn raw := needle.occursIn_blanks_append blank_space _
  have tokens : Rebroken (write (·.token) lead ps) (write (·.token) lead₁ ps₁) :=
    along₁.rebroken fun x hx => newline_token (named x hx)
  have only : ∀ q ∈ ps₂.map (·.1),
      (Text.splitOnly? q.token (write (·.token) (g ++ lead₂) ps₂)).isSome = true := by
    intro q hq
    rw [placeholders, ← (mask_spec h).2.1] at hq
    obtain ⟨n, hn⟩ := token_of_mem h hq
    have needle : Searched q.token := hn ▸ searched_token n
    rw [behind, needle.splitOnly?_blanks_append hg]
    refine (Respaced.append_blanks _ hg').splitOnly? needle (tokens.respaced.splitOnly? needle ?_)
    exact only_of_unmask hs q hq
  have masked := mask_write braces placeholders occurs only
  rw [behind, behind] at masked
  refine ⟨_, masked, placeholders.trans (mask_spec h).2.1.symm, ?_⟩
  rw [Text.words_blanks_append hg, Text.words_append_blanks hg']
  exact tokens.words_eq []

end

end
end HostSql.Mask
