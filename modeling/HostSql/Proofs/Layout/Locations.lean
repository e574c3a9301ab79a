import HostSql.Proofs.Layout.Lines
import Mathlib.Data.List.Induction

/-! Tokens that are told by line and column. Whoever tells the locations of characters further and further
on, from the first one on, gets back the bytes from each of them to the next; and a line is continued
exactly if its first byte lies inside such a range and not at its front. -/
namespace HostSql
open Sql

/-- Line and column of the character with this number, counted in line breaks and in characters. -/
def Sql.Location.ofChar (sql : Text) (i : Nat) : Location :=
  ⟨(sql.take i).count '\n' + 1, ((sql.take i).reverse.takeWhile (· != '\n')).length + 1⟩

namespace Layout

/-- The bytes before the character with this number. -/
def byteAt (sql : Text) (i : Nat) : Nat := Text.size (sql.take i)

/-- Numbers of characters of a text, ascending from the first one. -/
structure Starts (sql : Text) (is : List Nat) : Prop where
  ascending : is.Pairwise (· < ·)
  inside : ∀ i ∈ is, i < sql.length
  first : sql ≠ [] → is.head? = some 0

/-- The ranges from each of the characters to the next, the last one to the end. -/
def ranges (sql : Text) (is : List Nat) : List Span :=
  is.zipWith (fun i j => ⟨byteAt sql i, byteAt sql j⟩) (is.tail ++ [sql.length])

/-- The bytes before a line. -/
def lineStart (ls : List Line) (n : Nat) : Nat := Text.size (Text.written ((ls.map (·.text)).take n))

/-- Lines that make up a text, each continued exactly if its first byte lies in one of the ranges and not at
its front. -/
structure LinesOf (sql : Text) (spans : List Span) (ls : List Line) : Prop where
  whole : Text.ofLines (ls.map (·.text)) = sql
  oneLine : ∀ line ∈ ls, '\n' ∉ line.text
  continued : ∀ n line, ls[n]? = some line → (line.continued = true ↔
    ∃ s ∈ spans, s.start < lineStart ls n ∧ lineStart ls n < s.stop)

/-- Tokens with the bytes that their locations tell. -/
def attach (sql : Text) (ls : List LocatedToken) : Option (List SpannedToken) :=
  (spans? sql (ls.map (·.location))).map (ls.zipWith (fun k s => ⟨k.token, s⟩))

section
variable {d : Dialect} {sql t : Text} {is : List Nat} {xs : List Text} {l : Location} {i n m o : Nat}

theorem tokenize_eq (d : Dialect) (sql : Text) :
    tokenize d sql = (tokens? d sql).bind (attach sql) := by
  unfold tokenize attach
  cases tokens? d sql with
  | none => rfl
  | some ls =>
    simp only [Option.bind_eq_bind, Option.bind_some, Option.pure_def, Option.map_eq_bind]
    rfl

theorem past_append (l : Location) (u v : Text) : l.past (u ++ v) = (l.past u).past v :=
  List.foldl_append

/-- Walking over the text before a character leads to its line and column. -/
theorem past_eq_ofChar (sql : Text) (i : Nat) : Location.past {} (sql.take i) = .ofChar sql i := by
  unfold Location.ofChar
  induction sql.take i using List.reverseRecOn with
  | nil => rfl
  | append_singleton u c ih =>
    rw [past_append, ih]
    change Location.next _ c = _
    by_cases line : c = '\n'
    · subst line
      simp [Location.next]
    · simp [Location.next, line]

/-- From each of the characters to the next runs a text, and these texts are the rest of the whole. -/
theorem exists_pieces (ascending : (i :: is).Pairwise (· < ·)) (inside : ∀ j ∈ i :: is, j < sql.length) :
    ∃ xs : List Text, xs.flatten = sql.drop i ∧
      locations (.ofChar sql i) xs = (i :: is).map (Location.ofChar sql) ∧
      spansFrom (byteAt sql i) xs = ranges sql (i :: is) := by
  -- What runs from one character to a later one leads from the location and byte of the one to the other's.
  have between {i j : Nat} (le : i ≤ j) :
      (Location.ofChar sql i).past ((sql.take j).drop i) = .ofChar sql j ∧
        byteAt sql i + Text.size ((sql.take j).drop i) = byteAt sql j := by
    have whole : sql.take j = sql.take i ++ (sql.take j).drop i := by
      conv => lhs; rw [← List.take_append_drop i (sql.take j)]
      rw [List.take_take, Nat.min_eq_left le]
    constructor
    · rw [← past_eq_ofChar, ← past_eq_ofChar, ← past_append, ← whole]
    · rw [byteAt, byteAt, ← Text.size_append, ← whole]
  induction is generalizing i with
  | nil =>
    have last := (between (Nat.le_of_lt (inside i List.mem_cons_self))).2
    refine ⟨[sql.drop i], by simp, rfl, ?_⟩
    rw [List.take_length] at last
    rw [spansFrom, last]
    rfl
  | cons j is ih =>
    obtain ⟨later, more⟩ := List.pairwise_cons.1 ascending
    have le : i ≤ j := Nat.le_of_lt (later j List.mem_cons_self)
    obtain ⟨location, bytes⟩ := between le
    obtain ⟨xs, whole, told, spans⟩ := ih more fun k hk => inside k (List.mem_cons_of_mem i hk)
    refine ⟨(sql.take j).drop i :: xs, ?_, ?_, ?_⟩
    · have long : i ≤ (sql.take j).length := by
        have := inside i List.mem_cons_self
        rw [List.length_take]
        omega
      rw [List.flatten_cons, whole, ← List.drop_append_of_le_length long, List.take_append_drop]
    · rw [locations, location, told, List.map_cons (l := j :: is)]
    · rw [spansFrom, bytes, spans]
      rfl

/-- A text is cut at the characters that are told, and the pieces are told by their locations. -/
theorem Starts.exists_pieces (starts : Starts sql is) :
    ∃ xs : List Text, xs.flatten = sql ∧ locations {} xs = is.map (Location.ofChar sql) ∧
      spansFrom 0 xs = ranges sql is := by
  cases is with
  | nil =>
    have empty : sql = [] := by
      by_contra filled
      cases starts.first filled
    exact ⟨[], empty.symm, rfl, rfl⟩
  | cons i is =>
    have filled : sql ≠ [] := by
      rintro rfl
      exact absurd (starts.inside i List.mem_cons_self) (Nat.not_lt_zero i)
    obtain rfl : i = 0 := Option.some.inj (starts.first filled)
    obtain ⟨xs, whole, told, spans⟩ := Layout.exists_pieces starts.ascending starts.inside
    exact ⟨xs, whole, told, spans⟩

/-- The numbers of the first characters of texts that stand one behind the other. -/
def firsts (n : Nat) : List Text → List Nat
  | [] => []
  | x :: xs => n :: firsts (n + x.length) xs

theorem le_of_mem_firsts (h : m ∈ firsts n xs) : n ≤ m := by
  induction xs generalizing n with
  | nil => cases h
  | cons x xs ih =>
    rcases List.mem_cons.1 h with rfl | h
    · exact Nat.le_refl _
    · exact Nat.le_trans (Nat.le_add_right n x.length) (ih h)

theorem ascending_firsts (filled : ∀ x ∈ xs, x ≠ []) (n : Nat) : (firsts n xs).Pairwise (· < ·) := by
  induction xs generalizing n with
  | nil => exact .nil
  | cons x xs ih =>
    obtain ⟨first, others⟩ := List.forall_mem_cons.1 filled
    refine .cons (fun m hm => ?_) (ih others _)
    have behind := le_of_mem_firsts hm
    have := List.length_pos_iff.2 first
    omega

theorem lt_of_mem_firsts (filled : ∀ x ∈ xs, x ≠ []) (h : m ∈ firsts n xs) :
    m < n + xs.flatten.length := by
  induction xs generalizing n with
  | nil => cases h
  | cons x xs ih =>
    obtain ⟨first, others⟩ := List.forall_mem_cons.1 filled
    rw [List.flatten_cons, List.length_append]
    have := List.length_pos_iff.2 first
    rcases List.mem_cons.1 h with rfl | h
    · omega
    · have := ih others h
      omega

theorem locations_eq_firsts (u : Text) (xs : List Text) :
    locations (.past {} u) xs = (firsts u.length xs).map (Location.ofChar (u ++ xs.flatten)) := by
  induction xs generalizing u with
  | nil => rfl
  | cons x xs ih =>
    have rest := ih (u ++ x)
    rw [List.append_assoc, List.length_append, past_append] at rest
    have here : Location.ofChar (u ++ (x :: xs).flatten) u.length = Location.past {} u := by
      rw [← past_eq_ofChar, List.take_left]
    rw [locations, firsts, List.map_cons, here, rest, List.flatten_cons]

/-- The lexer tells its tokens in this way. -/
theorem exists_starts_of_tokens? {ls : List LocatedToken} (h : tokens? d sql = some ls) :
    ∃ is, Starts sql is ∧ ls.map (·.location) = is.map (Location.ofChar sql) := by
  obtain ⟨ks, lexes, rfl⟩ := tokens?_eq_some_iff.1 h
  have filled : ∀ x ∈ texts ks, x ≠ [] := by
    clear h
    induction lexes with
    | nil => nofun
    | cons _ _ ih => exact List.forall_mem_cons.2 ⟨List.cons_ne_nil _ _, ih⟩
  have whole := lexes.flatten
  refine ⟨firsts 0 (texts ks), ⟨ascending_firsts filled 0, fun i hi => ?_, fun some => ?_⟩, ?_⟩
  · have inside := lt_of_mem_firsts filled hi
    rwa [whole, Nat.zero_add] at inside
  · cases ks with
    | nil => exact absurd whole.symm some
    | cons k ks => rfl
  · have told := locations_eq_firsts [] (texts ks)
    rw [List.nil_append, whole] at told
    rw [map_location_located]
    exact told

/-! ## Ranges and lines -/

theorem slice_spansFrom (u : Text) (xs : List Text) :
    (spansFrom u.size xs).flatMap (u ++ xs.flatten).slice = xs.flatten := by
  induction xs generalizing u with
  | nil => rfl
  | cons x xs ih =>
    have rest := ih (u ++ x)
    rw [List.append_assoc, Text.size_append] at rest
    have own := Text.slice_between u x xs.flatten
    rw [spansFrom, List.flatMap_cons, List.flatten_cons, own, rest]

theorem le_start {s : Span} (h : s ∈ spansFrom n xs) : n ≤ s.start := by
  induction xs generalizing n with
  | nil => cases h
  | cons x xs ih =>
    rcases List.mem_cons.1 h with rfl | h
    · exact Nat.le_refl _
    · exact Nat.le_trans (Nat.le_add_right n x.size) (ih h)

theorem ascending_breaks (n : Nat) (t : Text) : (breaks n t).Pairwise (· < ·) := by
  induction t generalizing n with
  | nil => exact .nil
  | cons c t ih =>
    rw [breaks]
    split
    · exact .cons (fun m hm => (of_mem_breaks hm).1) (ih _)
    · exact ih _

theorem ascending_startsInside (n : Nat) (xs : List Text) : (startsInside n xs).Pairwise (· < ·) := by
  induction xs generalizing n with
  | nil => exact .nil
  | cons x xs ih =>
    rw [startsInside]
    refine List.pairwise_append.2 ⟨(ascending_breaks n x).filter _, ih _, fun a ha b hb => ?_⟩
    have before := (List.mem_filter.1 ha).2
    have behind := lt_of_mem_startsInside hb
    simp only [decide_eq_true_eq] at before
    omega

/-- A line break leads into one of the texts exactly if the byte behind it lies inside its range. -/
theorem mem_startsInside_iff (h : o ∈ breaks n xs.flatten) :
    o ∈ startsInside n xs ↔ ∃ s ∈ spansFrom n xs, s.start < o ∧ o < s.stop := by
  induction xs generalizing n with
  | nil => cases h
  | cons x xs ih =>
    rw [List.flatten_cons, breaks_append, List.mem_append] at h
    simp only [startsInside, spansFrom, List.mem_append, List.mem_filter, decide_eq_true_eq,
      List.mem_cons, exists_eq_or_imp]
    rcases h with here | later
    · have bounds := of_mem_breaks here
      have none_left : o ∉ startsInside (n + x.size) xs := fun h => by
        have := lt_of_mem_startsInside h
        omega
      have none_right : ¬ ∃ s ∈ spansFrom (n + x.size) xs, s.start < o ∧ o < s.stop := by
        rintro ⟨s, hs, front, -⟩
        have := le_start hs
        omega
      simp [here, none_left, none_right, bounds.1]
    · have bounds := of_mem_breaks later
      rw [ih later]
      have behind : ¬ o < n + x.size := by omega
      simp [behind]

/-- The number of bytes before a line. -/
theorem linesFrom_getElem? (inside : List Nat) (m : Nat) (ls : List Text) (n : Nat) :
    (linesFrom inside m ls)[n]? =
      ls[n]?.map fun x => ⟨x, inside.contains (m + Text.size (Text.written (ls.take n)))⟩ := by
  induction ls generalizing m n with
  | nil => rfl
  | cons x ls ih =>
    cases n with
    | zero => simp [linesFrom, Text.written]
    | succ n =>
      have before : Text.size (Text.written (x :: ls.take n)) =
          x.size + 1 + Text.size (Text.written (ls.take n)) := by
        have one : Text.size ['\n'] = 1 := by decide
        rw [Text.written, List.flatMap_cons, Text.size_append, Text.size_append, one]
        rfl
      rw [linesFrom, List.getElem?_cons_succ, List.getElem?_cons_succ, ih, List.take_succ_cons, before]
      simp only [Nat.add_assoc]

/-- A line other than the first starts behind a line break. -/
theorem mem_breaks_of_line (first : 0 < n) (h : n < (Text.lines sql).length) :
    Text.size (Text.written ((Text.lines sql).take n)) ∈ breaks 0 sql := by
  have rest : (Text.lines sql).drop n ≠ [] := by
    rw [← List.length_pos_iff, List.length_drop]
    omega
  have some : (Text.lines sql).take n ≠ [] := by
    rw [← List.length_pos_iff, List.length_take]
    omega
  obtain ⟨u, whole, -⟩ := Text.exists_written (List.take_append_drop n _).symm rest
  obtain ⟨ls, x, last⟩ := (List.eq_nil_or_concat _).resolve_left some
  rw [last, List.concat_eq_append] at whole ⊢
  have cut : Text.written (ls ++ [x]) = (Text.written ls ++ x) ++ ['\n'] := by simp [Text.written]
  rw [whole, cut, breaks_append, List.mem_append, breaks_append, List.mem_append, Text.size_append _ ['\n']]
  exact .inl (.inr (by simp [breaks]))

theorem linesOf_linesWith (xs : List Text) :
    LinesOf xs.flatten (spansFrom 0 xs) (linesWith xs.flatten (spansFrom 0 xs)) := by
  have lines := map_text_linesWith xs
  refine ⟨?_, fun line h => ?_, fun n line h => ?_⟩
  · rw [lines, Text.ofLines_lines]
  · refine Text.not_mem_of_mem_lines (t := xs.flatten) ?_
    rw [← lines]
    exact List.mem_map_of_mem h
  · rw [lineStart, lines]
    have starts : insideStarts xs.flatten (spansFrom 0 xs) = startsInside 0 xs :=
      insideStarts_spansFrom [] xs
    rw [linesWith, linesFrom_getElem?, starts, Nat.zero_add] at h
    obtain ⟨x, found, rfl⟩ := Option.map_eq_some_iff.1 h
    dsimp only
    rw [List.contains_iff_mem]
    rcases Nat.eq_zero_or_pos n with rfl | later
    · -- No text begins before the first line.
      refine iff_of_false (fun inside => ?_) ?_
      · exact absurd (lt_of_mem_startsInside inside) (Nat.lt_irrefl 0)
      · rintro ⟨s, -, front, -⟩
        exact absurd front (Nat.not_lt_zero _)
    · obtain ⟨bound, -⟩ := List.getElem?_eq_some_iff.1 found
      exact mem_startsInside_iff (mem_breaks_of_line later bound)

theorem length_locations (l : Location) (xs : List Text) : (locations l xs).length = xs.length := by
  induction xs generalizing l with
  | nil => rfl
  | cons x xs ih => rw [locations, List.length_cons, ih, List.length_cons]

theorem length_spansFrom (n : Nat) (xs : List Text) : (spansFrom n xs).length = xs.length := by
  induction xs generalizing n with
  | nil => rfl
  | cons x xs ih => rw [spansFrom, List.length_cons, ih, List.length_cons]

/-- Tokens that have as many locations as there are spans keep all of both. -/
theorem exists_attach {ls : List LocatedToken} {spans : List Span}
    (found : spans? sql (ls.map (·.location)) = some spans) (same : ls.length = spans.length) :
    ∃ ts, attach sql ls = some ts ∧ ts.map (·.token) = ls.map (·.token) ∧ ts.map (·.span) = spans := by
  have paired : ls.zipWith (fun k s => (⟨k.token, s⟩ : SpannedToken)) spans =
      (ls.zip spans).map fun x => ⟨x.1.token, x.2⟩ := List.map_uncurry_zip_eq_zipWith.symm
  refine ⟨_, by rw [attach, found, Option.map_some], ?_, ?_⟩
  · have first : (ls.zip spans).map Prod.fst = ls := List.map_fst_zip (Nat.le_of_eq same)
    have tokens := congrArg (List.map (·.token)) first
    rw [paired, List.map_map]
    rwa [List.map_map] at tokens
  · have second : (ls.zip spans).map Prod.snd = spans := List.map_snd_zip (Nat.le_of_eq same.symm)
    rw [paired, List.map_map]
    exact second

/-- Locations of characters further and further on, from the first one on, are enough to give each token
its bytes: those from its first character to that of the next token, the last one's to the end. The ranges
make up the text, and so do the lines; a line is continued exactly if its first byte lies strictly inside
one of the ranges. The positions that this is looked up in ascend. -/
theorem ranges_of_locations {ls : List LocatedToken} (starts : Starts sql is)
    (told : ls.map (·.location) = is.map (Location.ofChar sql)) :
    ∃ ts, attach sql ls = some ts ∧ ts.map (·.token) = ls.map (·.token) ∧
      ts.map (·.span) = ranges sql is ∧ (ranges sql is).flatMap sql.slice = sql ∧
      LinesOf sql (ranges sql is) (linesWith sql (ranges sql is)) ∧
      (insideStarts sql (ranges sql is)).Pairwise (· < ·) ∧
      ∀ d, tokens? d sql = some ls →
        tokenize d sql = some ts ∧ splitLines d sql = some (linesWith sql (ranges sql is)) := by
  obtain ⟨xs, rfl, pieces, spans⟩ := starts.exists_pieces
  rw [← spans]
  have found : spans? xs.flatten (ls.map (·.location)) = some (spansFrom 0 xs) := by
    rw [told, ← pieces]
    exact spans?_locations xs
  have same : ls.length = (spansFrom 0 xs).length := by
    have lengths := congrArg List.length (told.trans pieces.symm)
    rwa [List.length_map, length_locations, ← length_spansFrom 0] at lengths
  obtain ⟨ts, attached, tokens, covered⟩ := exists_attach found same
  refine ⟨ts, attached, tokens, covered, slice_spansFrom [] xs, linesOf_linesWith xs, ?_, fun d lexed => ?_⟩
  · have inside : insideStarts xs.flatten (spansFrom 0 xs) = startsInside 0 xs :=
      insideStarts_spansFrom [] xs
    rw [inside]
    exact ascending_startsInside 0 xs
  · have whole : tokenize d xs.flatten = some ts := by
      rw [tokenize_eq, lexed, Option.bind_some, attached]
    refine ⟨whole, ?_⟩
    rw [splitLines, whole, Option.map_some, covered]

/-- A character outside ASCII, a string over two lines and a comment that takes its line break along. -/
def accented : Text := "é 'a\n b' -- n\n".toList

/-- Where its tokens begin, as the lexer tells it. -/
def accentedTokens : List LocatedToken :=
  [⟨⟨.stray, "é".toList⟩, ⟨1, 1⟩⟩, ⟨⟨.blank, " ".toList⟩, ⟨1, 2⟩⟩,
    ⟨⟨.string .single, "'a\n b'".toList⟩, ⟨1, 3⟩⟩, ⟨⟨.blank, " ".toList⟩, ⟨2, 4⟩⟩,
    ⟨⟨.lineComment 2, "-- n\n".toList⟩, ⟨2, 5⟩⟩]

/-- The line that begins in the string is continued, the empty one behind the comment is not. -/
theorem ranges_of_locations_accented :
    Starts accented [0, 1, 2, 8, 9] ∧
      accentedTokens.map (·.location) = [0, 1, 2, 8, 9].map (Location.ofChar accented) ∧
      ranges accented [0, 1, 2, 8, 9] = [⟨0, 2⟩, ⟨2, 3⟩, ⟨3, 9⟩, ⟨9, 10⟩, ⟨10, 15⟩] ∧
      splitLines .databricks accented =
        some [⟨"é 'a".toList, false⟩, ⟨" b' -- n".toList, true⟩, ⟨[], false⟩] := by
  have starts : Starts accented [0, 1, 2, 8, 9] := ⟨by decide, by decide, by decide⟩
  have told : accentedTokens.map (·.location) = [0, 1, 2, 8, 9].map (Location.ofChar accented) := by
    decide
  have lexed : tokens? .databricks accented = some accentedTokens := by with_unfolding_all decide
  obtain ⟨_, _, _, _, _, _, _, lines⟩ := ranges_of_locations starts told
  refine ⟨starts, told, by decide, ?_⟩
  rw [(lines .databricks lexed).2]
  decide

end
end Layout
end HostSql
