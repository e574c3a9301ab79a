import HostSql.Proofs.Mask.Tokens

/-! Putting the expressions back into the masked text. Each identifier is looked for from the left
of the text. A part of an identifier that stands in the text before it can make up a whole one with
its first characters, and is then taken for it; otherwise the text comes back as it was. -/
namespace HostSql.Mask

/-- Each identifier with the text up to the next one. -/
def pieces (raw : Text) : List (Placeholder × Text) :=
  (number raw 0 ((split raw).2.map (·.1))).zip ((split raw).2.map (·.2))

/-- A beginning and pieces behind it, with `put` for each placeholder. -/
def write (put : Placeholder → Text) (lead : Text) (ps : List (Placeholder × Text)) : Text :=
  lead ++ ps.flatMap fun (p, t) => put p ++ t

/-- All of the token but its last one or two characters stands at the end of the text, and the token
behind it begins with those. -/
def Completes (token behind : Text) : Prop :=
  token.dropLast <:+ behind ∨ token.dropLast.dropLast <:+ behind

@[simp] theorem write_nil (put : Placeholder → Text) (lead : Text) : write put lead [] = lead := by
  simp [write]

theorem write_cons (put : Placeholder → Text) (lead t : Text) (p : Placeholder)
    (ps : List (Placeholder × Text)) :
    write put lead ((p, t) :: ps) = lead ++ (put p ++ write put t ps) := by
  simp [write]

theorem write_append (put : Placeholder → Text) (lead t : Text) (p : Placeholder)
    (before after : List (Placeholder × Text)) :
    write put lead (before ++ (p, t) :: after) =
      write put lead before ++ (put p ++ write put t after) := by
  simp [write]

/-! ## The masked text and its pieces -/

theorem head_of_closing {depth : Nat} {quoted : Option Char} {c : Char} {t e rest : Text}
    (h : closing depth quoted (c :: t) = some (e, rest)) : e.head? = some c := by
  have ⟨whole, ne⟩ := append_of_closing h
  cases e with
  | nil => exact absurd rfl ne
  | cons d e => rw [List.cons_append, List.cons.injEq] at whole; rw [whole.1, List.head?_cons]

/-- The pieces of a text make it up, and every expression begins with a brace. -/
theorem split_spec (t : Text) :
    t = (split t).1 ++ ((split t).2.flatMap fun (e, u) => e ++ u) ∧
    ∀ x ∈ (split t).2, x.1.head? = some '{' := by
  fun_induction split t with
  | case1 => simp
  | case2 t lead parts hs ih | case3 t lead parts hs ih =>
    rw [hs] at ih
    exact ⟨congrArg (fun t => _ :: _ :: t) ih.1, ih.2⟩
  | case4 => simp
  | case5 t _ e rest hc lead parts hs ih =>
    rw [hs] at ih
    refine ⟨?_, fun x hx => ?_⟩
    · have whole := (append_of_closing hc).1
      simpa using whole.trans (congrArg (e ++ ·) ih.1)
    · rcases List.mem_cons.1 hx with rfl | hx
      · exact head_of_closing hc
      · exact ih.2 x hx
  | case6 c t _ _ _ lead parts hs ih =>
    rw [hs] at ih
    exact ⟨congrArg (c :: ·) ih.1, ih.2⟩

theorem placeholders_of_pieces (raw : Text) :
    (pieces raw).map (·.1) = number raw 0 ((split raw).2.map (·.1)) := by
  obtain ⟨ks, -, -, -, expressions⟩ := number_spec raw 0 ((split raw).2.map (·.1))
  have lengths := congrArg List.length expressions
  rw [List.length_map, List.length_map] at lengths
  refine List.map_fst_zip ?_
  rw [List.length_map]
  exact Nat.le_of_eq lengths

theorem parts_of_pieces (raw : Text) :
    (pieces raw).map (fun x => (x.1.expression, x.2)) = (split raw).2 := by
  obtain ⟨ks, -, -, -, expressions⟩ := number_spec raw 0 ((split raw).2.map (·.1))
  have zipped : (split raw).2 = ((split raw).2.map (·.1)).zip ((split raw).2.map (·.2)) := by
    simp [List.zip_map']
  conv => rhs; rw [zipped, ← expressions]
  rw [pieces, List.zip_map_left]
  rfl

theorem write_parts (lead : Text) (ps : List (Placeholder × Text)) :
    write (·.expression) lead ps =
      lead ++ (ps.map fun x => (x.1.expression, x.2)).flatMap fun (e, t) => e ++ t := by
  rw [write, List.flatMap_map]

theorem write_expression (raw : Text) :
    write (·.expression) (split raw).1 (pieces raw) = raw := by
  rw [write_parts, parts_of_pieces]
  exact (split_spec raw).1.symm

theorem join_pieces (lead : Text) (ps : List (Placeholder × Text)) :
    join lead (ps.map (·.1)) (ps.map (·.2)) = write (·.token) lead ps := by
  rw [join, write, List.zipWith_map, List.zipWith_self, List.flatMap]

theorem head_of_expression {raw : Text} {x : Placeholder × Text} (hx : x ∈ pieces raw) :
    x.1.expression.head? = some '{' := by
  obtain ⟨ks, -, -, -, expressions⟩ := number_spec raw 0 ((split raw).2.map (·.1))
  have hp : x.1 ∈ number raw 0 ((split raw).2.map (·.1)) := (List.of_mem_zip hx).1
  have he : x.1.expression ∈ (split raw).2.map (·.1) := by
    rw [← expressions]
    exact List.mem_map_of_mem hp
  obtain ⟨y, hy, heq⟩ := List.mem_map.1 he
  rw [← heq]
  exact (split_spec raw).2 y hy

theorem mask_spec {raw : Text} {m : Masked} (h : mask raw = some m) :
    m.text = write (·.token) (split raw).1 (pieces raw) ∧
    m.placeholders = (pieces raw).map (·.1) ∧
    ∀ p ∈ m.placeholders, (Text.splitOnly? p.token m.text).isSome = true := by
  unfold mask at h
  dsimp only at h
  split at h
  · next all =>
    cases h
    refine ⟨?_, (placeholders_of_pieces raw).symm, fun p hp => List.all_eq_true.1 all p hp⟩
    rw [join, write, pieces, ← List.map_uncurry_zip_eq_zipWith]
    rfl
  · cases h

/-! ## Where identifiers are found -/

/-- Where the first occurrence of a needle begins, counted in characters. -/
def firstAt (needle t : Text) : Nat := ((Text.splitOnly? needle t).map (·.1.length)).getD 0

theorem firstAt_spec {needle t : Text} (h : (Text.splitOnly? needle t).isSome = true) :
    ∃ b a, firstAt needle t = b.length ∧ t = b ++ (needle ++ a) ∧
      ∀ u v, t = u ++ (needle ++ v) →
        b.length ≤ u.length ∧ (needle ≠ [] → u.length < b.length + needle.length) := by
  obtain ⟨⟨b, a⟩, hs⟩ := Option.isSome_iff_exists.1 h
  obtain ⟨whole, least⟩ := Text.splitOnly?_spec hs
  exact ⟨b, a, by simp [firstAt, hs], whole, least⟩

/-- Identifiers that are found at the same place are the same. -/
theorem eq_of_firstAt {x y t : Text} (hx : ∃ n, x = token n) (hy : ∃ n, y = token n)
    (only : (Text.splitOnly? x t).isSome = true) (only' : (Text.splitOnly? y t).isSome = true)
    (same : firstAt x t = firstAt y t) : x = y := by
  obtain ⟨n, rfl⟩ := hx
  obtain ⟨k, rfl⟩ := hy
  obtain ⟨b, a, start, whole, -⟩ := firstAt_spec only
  obtain ⟨b', a', start', whole', -⟩ := firstAt_spec only'
  rw [start, start'] at same
  exact congrArg token (token_inj (List.append_inj (whole.symm.trans whole') same).2)

/-- An identifier that reaches into itself does so with its last one or two underscores. -/
theorem completes_of_overlap {n : Nat} {b a behind v : Text}
    (same : b ++ (token n ++ a) = behind ++ (token n ++ v)) (early : b.length < behind.length)
    (close : behind.length < b.length + (token n).length) : Completes (token n) behind := by
  have apart := tokens_apart same early
  obtain ⟨w, hw, shared⟩ := Text.exists_append_of_length_le same (Nat.le_of_lt early)
  have width : behind.length = b.length + w.length := by rw [hw, List.length_append]
  have taken : w = (token n).take w.length := by
    have := congrArg (List.take w.length) shared
    rwa [List.take_left, List.take_append_of_le_length (by omega), eq_comm] at this
  have suffix : w <:+ behind := ⟨b, hw.symm⟩
  rcases Nat.lt_or_eq_of_le (show w.length + 1 ≤ (token n).length by omega) with hlen | hlen
  · refine .inr ?_
    rwa [List.dropLast_eq_take, List.dropLast_eq_take, List.length_take, List.take_take,
      show min (min ((token n).length - 1) (token n).length - 1) ((token n).length - 1) =
        w.length by omega, ← taken]
  · refine .inl ?_
    rwa [List.dropLast_eq_take, show (token n).length - 1 = w.length by omega, ← taken]

/-- What is missing of an identifier is made up by the next one, whose first underscores are those
that it ends with. -/
theorem exists_earlier_of_completes {n : Nat} {behind : Text} (h : Completes (token n) behind)
    (v : Text) :
    ∃ u a, behind ++ (token n ++ v) = u ++ (token n ++ a) ∧ u.length < behind.length := by
  obtain ⟨body, opening, -⟩ := token_shape n
  have ending : token n = marker ++ Nat.toDigits 10 n ++ ['_', '_'] := rfl
  have inner : (token n).dropLast.dropLast = marker ++ Nat.toDigits 10 n := by
    rw [ending]
    simp
  have outer : (token n).dropLast = marker ++ Nat.toDigits 10 n ++ ['_'] := by
    rw [ending]
    simp
  rcases h with ⟨u, hu⟩ | ⟨u, hu⟩
  · refine ⟨u, '_' :: 'E' :: (body ++ v), ?_, ?_⟩
    · rw [← hu, outer]
      conv => lhs; rw [opening]
      rw [ending]
      simp
    · rw [← hu, outer]
      simp only [List.length_append, List.length_cons, List.length_nil]
      omega
  · refine ⟨u, 'E' :: (body ++ v), ?_, ?_⟩
    · rw [← hu, inner]
      conv => lhs; rw [opening]
      rw [ending]
      simp
    · rw [← hu, inner]
      have := List.length_pos_iff.2 (show marker ≠ [] by decide)
      simp only [List.length_append]
      omega

/-- An identifier is found before its own place exactly where the text up to there and its first
characters make up the same identifier. -/
theorem firstAt_lt_iff {n : Nat} {t behind v : Text} (whole : t = behind ++ (token n ++ v))
    (h : (Text.splitOnly? (token n) t).isSome = true) :
    firstAt (token n) t < behind.length ↔ Completes (token n) behind := by
  obtain ⟨b, a, start, found, least⟩ := firstAt_spec h
  rw [start]
  constructor
  · exact fun early => completes_of_overlap (found.symm.trans whole) early
      ((least behind v whole).2 (token_ne_nil n))
  · intro completes
    obtain ⟨u, w, again, earlier⟩ := exists_earlier_of_completes completes v
    exact Nat.lt_of_le_of_lt (least u w (whole.trans again)).1 earlier

/-- Pieces are related if each is related to every one behind it. -/
theorem pairwise_of_split {R : Placeholder × Text → Placeholder × Text → Prop}
    {ps : List (Placeholder × Text)}
    (h : ∀ before x middle y after, ps = before ++ x :: (middle ++ y :: after) → R x y) :
    ps.Pairwise R := by
  induction ps with
  | nil => exact .nil
  | cons x ps ih =>
    refine .cons (fun y hy => ?_) (ih fun before z middle y after hs => ?_)
    · obtain ⟨middle, after, rfl⟩ := List.append_of_mem hy
      exact h [] x middle y after rfl
    · exact h (x :: before) z middle y after (by rw [hs, List.cons_append])

/-! ## Putting the expressions back -/

/-- Behind a gap an expression is put in, and as much as its identifier takes is left out. -/
theorem restore_cons (s : Nat) (gap t : Text) (p : Placeholder) (hits : List Hit) :
    restore s (gap ++ t) (⟨s + gap.length, p⟩ :: hits) =
      (restore (s + gap.length + p.token.length) (t.drop p.token.length) hits).map
        (gap ++ p.expression ++ ·) := by
  have width : s + gap.length - s = gap.length := by omega
  rw [restore]
  dsimp only
  rw [if_neg (by omega), width, List.take_left, ← List.drop_drop, List.drop_left]

/-- Nothing is put in before the place that was reached. -/
theorem le_start_of_restore {s : Nat} {t r : Text} {hit : Hit} {hits : List Hit}
    (h : restore s t (hit :: hits) = some r) : s ≤ hit.start := by
  rw [restore] at h
  split at h
  · cases h
  · omega

/-- An identifier that was found before its place, at an underscore, puts the brace of its expression
there, so what stood there does not come back. -/
theorem restore_early {s n : Nat} {lead t r : Text} {p : Placeholder} {hits : List Hit}
    (braced : p.expression.head? = some '{')
    (underscore : s ≤ n → lead[n - s]? = some '_') :
    restore s (lead ++ t) (⟨n, p⟩ :: hits) ≠ some (lead ++ r) := by
  intro h
  have ahead : s ≤ n := le_start_of_restore h
  obtain ⟨inside, char⟩ := List.getElem?_eq_some_iff.1 (underscore ahead)
  have parts : lead = lead.take (n - s) ++ '_' :: lead.drop (n - s + 1) := by
    rw [← char, List.getElem_cons_drop, List.take_append_drop]
  have start : n = s + (lead.take (n - s)).length := by
    rw [List.length_take]
    omega
  generalize lead.take (n - s) = gap at *
  generalize lead.drop (n - s + 1) = rest at *
  obtain ⟨e, he⟩ : ∃ e, p.expression = '{' :: e := by simpa using List.head?_eq_some_iff.1 braced
  rw [parts, start, List.append_assoc, List.append_assoc, restore_cons, he] at h
  obtain ⟨r', -, same⟩ := Option.map_eq_some_iff.1 h
  rw [List.append_assoc, List.append_cancel_left_eq] at same
  simp at same

/-- What holds of every piece, with those before and behind it, holds of the first one and of the
others behind that. -/
theorem forall_split_cons {x : Placeholder × Text} {ps : List (Placeholder × Text)}
    {P : List (Placeholder × Text) → Placeholder → Prop} :
    (∀ before p t after, x :: ps = before ++ (p, t) :: after → P before p) ↔
      P [] x.1 ∧ ∀ before p t after, ps = before ++ (p, t) :: after → P (x :: before) p := by
  constructor
  · refine fun all => ⟨all [] x.1 x.2 ps rfl, fun before p t after hs => ?_⟩
    exact all (x :: before) p t after (by rw [hs, List.cons_append])
  · rintro ⟨first, others⟩ before p t after hs
    cases before with
    | nil =>
      obtain ⟨rfl, -⟩ := List.cons.inj hs
      exact first
    | cons y before =>
      obtain ⟨rfl, rest⟩ := List.cons.inj hs
      exact others before p t after rest

/-- From text whose pieces begin at character `s`, the expressions come back in their places exactly
when every identifier was found at its own place. -/
theorem restore_eq_some_iff (q : Placeholder → Nat) (lead : Text)
    (ps : List (Placeholder × Text)) {s : Nat}
    (braced : ∀ x ∈ ps, x.1.expression.head? = some '{')
    (early : ∀ before p t after, ps = before ++ (p, t) :: after →
      q p ≤ s + (write (·.token) lead before).length)
    (underscore : ∀ x ∈ ps, s ≤ q x.1 → (write (·.token) lead ps)[q x.1 - s]? = some '_') :
    restore s (write (·.token) lead ps) (ps.map fun x => ⟨q x.1, x.1⟩) =
        some (write (·.expression) lead ps) ↔
      ∀ before p t after, ps = before ++ (p, t) :: after →
        q p = s + (write (·.token) lead before).length := by
  induction ps generalizing lead s with
  | nil => simp [restore]
  | cons x ps ih =>
    obtain ⟨p, t⟩ := x
    obtain ⟨first, later⟩ := forall_split_cons.1 early
    have here := underscore (p, t) List.mem_cons_self
    rw [write_nil] at first
    rw [forall_split_cons, write_nil, List.map_cons, write_cons, write_cons]
    rw [write_cons] at here
    dsimp only at first here ⊢
    rcases Nat.lt_or_eq_of_le first with hlt | heq
    · refine iff_of_false (restore_early (braced _ List.mem_cons_self) fun ahead => ?_) fun own => ?_
      · rw [← here ahead, List.getElem?_append_left (by omega)]
      · exact absurd own.1 (Nat.ne_of_lt hlt)
    · have width (before : List (Placeholder × Text)) :
          s + (write (·.token) lead ((p, t) :: before)).length =
            s + lead.length + p.token.length + (write (·.token) t before).length := by
        rw [write_cons, List.length_append, List.length_append]
        omega
      simp only [width] at later ⊢
      rw [heq, restore_cons, List.drop_left, Option.map_eq_some_iff]
      simp only [List.append_assoc, List.append_cancel_left_eq, exists_eq_right, true_and]
      refine ih t (fun x hx => braced x (List.mem_cons_of_mem _ hx)) later fun x hx hle => ?_
      have char := underscore x (List.mem_cons_of_mem _ hx) (by omega)
      rw [write_cons, ← List.append_assoc, List.getElem?_append_right
        (by rw [List.length_append]; omega), List.length_append] at char
      rw [← char]
      congr 1
      omega

theorem unmask_nil (t : Text) : unmask t [] = some t := by
  rw [unmask]
  simp [restore]

theorem unmask_eq_restore {t : Text} {ps : List Placeholder}
    (h : ∀ p ∈ ps, (Text.splitOnly? p.token t).isSome = true) :
    unmask t ps =
      restore 0 t ((ps.map fun p => ⟨firstAt p.token t, p⟩).mergeSort fun a b =>
        a.start ≤ b.start) := by
  have hits : ps.mapM (fun p => (Text.splitOnly? p.token t).map fun (before, _) =>
      (⟨before.length, p⟩ : Hit)) = some (ps.map fun p => ⟨firstAt p.token t, p⟩) := by
    induction ps with
    | nil => rfl
    | cons p ps ih =>
      obtain ⟨⟨b, a⟩, hs⟩ := Option.isSome_iff_exists.1 (h p List.mem_cons_self)
      rw [List.mapM_cons, ih fun p hp => h p (List.mem_cons_of_mem _ hp), hs]
      simp [firstAt, hs]
  rw [unmask, hits]
  rfl

/-- Identifiers that come in the order in which they are found need no sorting. -/
theorem unmask_of_ascending {t : Text} {ps : List Placeholder}
    (only : ∀ p ∈ ps, (Text.splitOnly? p.token t).isSome = true)
    (ascending : ps.Pairwise fun p q => firstAt p.token t ≤ firstAt q.token t) :
    unmask t ps = restore 0 t (ps.map fun p => ⟨firstAt p.token t, p⟩) := by
  rw [unmask_eq_restore only, List.mergeSort_of_pairwise]
  simpa only [List.pairwise_map, decide_eq_true_eq] using ascending

/-- In which order the placeholders come does not matter if no two of them are found at one place. -/
theorem unmask_perm {t : Text} {ps qs : List Placeholder} (perm : qs.Perm ps)
    (only : ∀ p ∈ ps, (Text.splitOnly? p.token t).isSome = true)
    (apart : ∀ p ∈ ps, ∀ q ∈ ps, firstAt p.token t = firstAt q.token t → p = q) :
    unmask t qs = unmask t ps := by
  rw [unmask_eq_restore only, unmask_eq_restore fun p hp => only p (perm.subset hp)]
  have ascending (hits : List Hit) : (hits.mergeSort fun a b => a.start ≤ b.start).Pairwise
      fun a b => a.start ≤ b.start := by
    have sorted : (hits.mergeSort fun a b => a.start ≤ b.start).Pairwise
        fun a b => decide (a.start ≤ b.start) = true :=
      List.pairwise_mergeSort (by intro a b c; simp; omega) (by intro a b; simp; omega) hits
    simpa only [decide_eq_true_eq] using sorted
  have hits := perm.map fun p => (⟨firstAt p.token t, p⟩ : Hit)
  refine congrArg (restore 0 t) (List.Perm.eq_of_pairwise ?_ (ascending _) (ascending _)
    ((List.mergeSort_perm _ _).trans (hits.trans (List.mergeSort_perm _ _).symm)))
  intro a b ha hb hab hba
  obtain ⟨p, hp, rfl⟩ := List.mem_map.1 ((List.mergeSort_perm _ _).subset ha)
  obtain ⟨q, hq, rfl⟩ := List.mem_map.1 ((List.mergeSort_perm _ _).subset hb)
  have same := apart p (perm.subset hp) q hq (Nat.le_antisymm hab hba)
  rw [same]

section
variable {raw : Text} {m : Masked} {before after : List (Placeholder × Text)} {p : Placeholder}
  {t : Text}

theorem token_of_mem (h : mask raw = some m) (hp : p ∈ m.placeholders) :
    ∃ n, p.token = token n := by
  obtain ⟨ks, tokens, -, -, -⟩ := number_spec raw 0 ((split raw).2.map (·.1))
  rw [← placeholders_of_pieces, ← (mask_spec h).2.1] at tokens
  have : p.token ∈ ks.map token := tokens ▸ List.mem_map_of_mem hp
  obtain ⟨n, -, hn⟩ := List.mem_map.1 this
  exact ⟨n, hn.symm⟩

/-- The place of its own that an identifier has in the masked text. -/
theorem own_place (h : mask raw = some m) (hs : pieces raw = before ++ (p, t) :: after) :
    p ∈ m.placeholders ∧
    m.text = write (·.token) (split raw).1 before ++ (p.token ++ write (·.token) t after) := by
  obtain ⟨text, placeholders, -⟩ := mask_spec h
  exact ⟨by simp [placeholders, hs], by rw [text, hs, write_append]⟩

/-- The identifiers of a masked text are found in their order: one found before an earlier one's own
place would end before its own. -/
theorem firstAt_ascending (h : mask raw = some m) :
    m.placeholders.Pairwise fun p q => firstAt p.token m.text ≤ firstAt q.token m.text := by
  obtain ⟨text, placeholders, only⟩ := mask_spec h
  rw [placeholders, List.pairwise_map]
  refine pairwise_of_split ?_
  rintro before ⟨p, t⟩ middle ⟨p', t'⟩ after hs
  obtain ⟨hp, place⟩ := own_place h hs
  have hs' : pieces raw = (before ++ (p, t) :: middle) ++ (p', t') :: after := by
    rw [hs, List.append_assoc, List.cons_append]
  obtain ⟨hp', place'⟩ := own_place h hs'
  obtain ⟨n, hn⟩ := token_of_mem h hp
  obtain ⟨n', hn'⟩ := token_of_mem h hp'
  obtain ⟨b, a, start, -, least⟩ := firstAt_spec (only p hp)
  obtain ⟨b', a', start', found', least'⟩ := firstAt_spec (only p' hp')
  dsimp only
  rw [start, start']
  apply Nat.le_of_not_lt
  intro hlt
  have own := (least _ _ place).1
  have own' := (least' _ _ place').2 (hn' ▸ token_ne_nil n')
  rw [hn] at place
  rw [hn'] at found' own'
  have apart := tokens_apart (found'.symm.trans place) (by omega)
  have := length_token n
  rw [write_append, List.length_append, List.length_append, hn] at own'
  omega

/-- The place where an identifier is found is not behind its own. -/
theorem firstAt_le (h : mask raw = some m) (hs : pieces raw = before ++ (p, t) :: after) :
    firstAt p.token m.text ≤ (write (·.token) (split raw).1 before).length := by
  obtain ⟨hp, place⟩ := own_place h hs
  obtain ⟨b, a, start, -, least⟩ := firstAt_spec ((mask_spec h).2.2 p hp)
  rw [start]
  exact (least _ _ place).1

/-- A masked text gives back the text exactly when every identifier is found at its own place. -/
theorem unmask_mask_iff_firstAt (h : mask raw = some m) :
    unmask m.text m.placeholders = some raw ↔
      ∀ before p t after, pieces raw = before ++ (p, t) :: after →
        firstAt p.token m.text = (write (·.token) (split raw).1 before).length := by
  obtain ⟨text, placeholders, only⟩ := mask_spec h
  have underscore (x : Placeholder × Text) (hx : x ∈ pieces raw) :
      m.text[firstAt x.1.token m.text]? = some '_' := by
    have hp : x.1 ∈ m.placeholders := placeholders ▸ List.mem_map_of_mem hx
    obtain ⟨b, a, start, found, -⟩ := firstAt_spec (only x.1 hp)
    obtain ⟨n, hn⟩ := token_of_mem h hp
    obtain ⟨body, shape, -⟩ := token_shape n
    rw [start, found, hn, shape, List.getElem?_append_right (Nat.le_refl _)]
    simp
  rw [unmask_of_ascending only (firstAt_ascending h)]
  have restored := restore_eq_some_iff (fun p => firstAt p.token m.text) (split raw).1 (pieces raw)
    (s := 0) (fun x hx => head_of_expression hx)
    (fun before p t after hs => by simpa using firstAt_le h hs)
    (fun x hx _ => by simpa [← text] using underscore x hx)
  rw [← text, write_expression] at restored
  simp only [Nat.zero_add] at restored
  rw [placeholders, List.map_map]
  exact restored

/-- A masked text gives back the text exactly when no identifier is found too early: in the text
before none of them stands that same identifier but for its last one or two underscores. -/
theorem unmask_mask_iff (h : mask raw = some m) :
    unmask m.text m.placeholders = some raw ↔
      ∀ before p t after, pieces raw = before ++ (p, t) :: after →
        ¬ Completes p.token (write (·.token) (split raw).1 before) := by
  refine (unmask_mask_iff_firstAt h).trans (forall_congr' fun before => forall_congr' fun p =>
    forall_congr' fun t => forall_congr' fun after => forall_congr' fun hs => ?_)
  obtain ⟨hp, place⟩ := own_place h hs
  obtain ⟨n, hn⟩ := token_of_mem h hp
  have lt_iff := firstAt_lt_iff (hn ▸ place) (hn ▸ (mask_spec h).2.2 p hp)
  rw [hn, ← lt_iff, ← hn]
  have := firstAt_le h hs
  omega

/-- The first number is taken by the text itself, and an identifier follows one directly. -/
theorem unmask_mask_taken_number :
    ∃ m, mask "__ESQL_MASK_0__ {a}\x7bb['\x7d']\x7d".toList = some m ∧
      unmask m.text m.placeholders = some "__ESQL_MASK_0__ {a}\x7bb['\x7d']\x7d".toList ∧
      ∀ before p t after, pieces "__ESQL_MASK_0__ {a}\x7bb['\x7d']\x7d".toList = before ++ (p, t) :: after →
        ¬ Completes p.token
          (write (·.token) (split "__ESQL_MASK_0__ {a}\x7bb['\x7d']\x7d".toList).1 before) := by
  have masked : mask "__ESQL_MASK_0__ {a}\x7bb['\x7d']\x7d".toList =
      some ⟨"__ESQL_MASK_0__ __ESQL_MASK_1____ESQL_MASK_2__".toList,
        [⟨"__ESQL_MASK_1__".toList, "{a}".toList⟩,
          ⟨"__ESQL_MASK_2__".toList, "\x7bb['\x7d']\x7d".toList⟩]⟩ := by
    with_unfolding_all decide
  have back := (unmask_of_ascending (mask_spec masked).2.2 (firstAt_ascending masked)).trans
    (show _ = some "__ESQL_MASK_0__ {a}\x7bb['\x7d']\x7d".toList by decide)
  exact ⟨_, masked, back, (unmask_mask_iff masked).1 back⟩

/-- Before the expression stands all of its identifier but the last two underscores. The expression
moves to the front of it. -/
theorem unmask_mask_completed :
    ∃ m, mask "__ESQL_MASK_0{x}".toList = some m ∧
      unmask m.text m.placeholders = some "{x}ESQL_MASK_0__".toList ∧
      unmask m.text m.placeholders ≠ some "__ESQL_MASK_0{x}".toList := by
  have masked : (mask "__ESQL_MASK_0{x}".toList).isSome = true := by with_unfolding_all decide
  have back : ((mask "__ESQL_MASK_0{x}".toList).bind fun m =>
      unmask m.text m.placeholders) = some "{x}ESQL_MASK_0__".toList := by with_unfolding_all decide
  obtain ⟨m, h⟩ := Option.isSome_iff_exists.1 masked
  rw [h] at back
  have back : unmask m.text m.placeholders = some "{x}ESQL_MASK_0__".toList := back
  refine ⟨m, h, back, ?_⟩
  rw [back]
  decide

end

end HostSql.Mask
