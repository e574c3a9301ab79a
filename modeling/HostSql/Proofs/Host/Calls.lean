import HostSql.Proofs.Host.Arguments

/-! The arguments of calls are found while the text is scanned: behind the name of a call the scan looks
ahead, and with an argument there it goes on behind it. The same arguments are found when the text is
cut into tokens first and each literal is then judged by the tokens around it. -/
namespace HostSql

def Fragment.isCall (f : Fragment) : Bool := f.kind == .call

/-- The arguments of the calls that are located in a text. -/
def calls (l : Locator) (t : Text) : List Fragment := (l.locate t).filter Fragment.isCall

theorem Cursor.skip_mk (b t : Text) (n : Nat) :
    (⟨b, t⟩ : Cursor).skip n = ⟨(t.take n).reverse ++ b, t.drop n⟩ := rfl

theorem Cursor.skip_skip (k : Cursor) (m n : Nat) : (k.skip m).skip n = k.skip (m + n) := by
  simp [skip, List.take_add]

namespace Locator
open HostToken (tokens opensBlock)

/-- How the scan goes on behind a token that ends with `prev`. -/
def phaseBehind (prev : Option Char) : Phase := if prev.all (· == '\n') then .lineStart else .code

/-- The calls that are found from the end of a token on. -/
def callsFrom (l : Locator) (b t : Text) : List Fragment :=
  (l.found (phaseBehind b.head?) ⟨b, t⟩).filter Fragment.isCall

theorem calls_eq (l : Locator) (t : Text) : calls l t = l.callsFrom [] t := by
  rw [calls, locate_eq_found]
  rfl

/-- The scan passes a token whole, and no call is found in it. -/
structure Takes (l : Locator) (b : Text) (x : HostToken) (rest : Text) : Prop where
  moves : x.text ≠ []
  cut : tokens l.marker b.head? (x.text ++ rest) =
    x :: tokens l.marker (x.text.reverse ++ b).head? rest
  passed : l.callsFrom b (x.text ++ rest) = l.callsFrom (x.text.reverse ++ b) rest
  fresh : rest.head?.any isNameChar = true → (x.text.reverse ++ b).head?.any isNameChar = false
  read : ∀ u, x = .literal u → Literal.read (u.text ++ rest) = .closed u rest
  refused : x = .name l.callName → ∀ gap u, argument rest ≠ .ok (gap, u)

section
variable {l : Locator} {b t u rest : Text} {c : Char} {x : HostToken}

@[simp] theorem callsFrom_nil (l : Locator) (b : Text) : l.callsFrom b [] = [] := by
  rw [callsFrom, found_nil]
  rfl

theorem callsFrom_plain (plain : opensBlock l.marker b.head? t = false) :
    l.callsFrom b t = (l.found .code ⟨b, t⟩).filter Fragment.isCall := by
  rw [callsFrom, phaseBehind]
  split
  · next start =>
    have line : l.isMarkerLine (line t) = false := by
      rw [opensBlock, start] at plain
      exact plain
    rw [found_plainLine line]
  · rfl

theorem head?_behind (hu : u ≠ []) (b : Text) : (u.reverse ++ b).head? = u.getLast? := by
  rw [List.head?_append, List.head?_reverse, List.getLast?_eq_some_getLast hu]
  rfl

/-- A token that begins in the code and is passed there. -/
theorem takes_of_cut (plain : opensBlock l.marker b.head? (x.text ++ rest) = false)
    (moves : x.text ≠ [])
    (cut : tokens l.marker b.head? (x.text ++ rest) = x :: tokens l.marker x.text.getLast? rest)
    (moved : l.found .code ⟨b, x.text ++ rest⟩ = l.found .code ⟨x.text.reverse ++ b, rest⟩)
    (next : opensBlock l.marker (x.text.reverse ++ b).head? rest = false)
    (fresh : rest.head?.any isNameChar = true → (x.text.reverse ++ b).head?.any isNameChar = false)
    (read : ∀ u, x = .literal u → Literal.read (u.text ++ rest) = .closed u rest)
    (refused : x = .name l.callName → ∀ gap u, argument rest ≠ .ok (gap, u)) : Takes l b x rest where
  moves := moves
  cut := by rw [cut, head?_behind moves]
  passed := by rw [callsFrom_plain plain, moved, callsFrom_plain next]
  fresh := fresh
  read := read
  refused := refused

/-- Behind text without a line break no marker line begins. -/
theorem not_opensBlock_oneLine (hu : u ≠ []) (h : '\n' ∉ u) (b t : Text) :
    opensBlock l.marker (u.reverse ++ b).head? t = false := by
  obtain ⟨init, c, rfl⟩ := (List.eq_nil_or_concat u).resolve_left hu
  have other : c ≠ '\n' := by
    rintro rfl
    exact h (by simp)
  exact HostToken.not_opensBlock_behind (by simpa using other) l.marker t

theorem takes_comment (plain : opensBlock l.marker b.head? ('#' :: (u ++ rest)) = false)
    (oneLine : '\n' ∉ u) (stop : rest = [] ∨ ∃ z, rest = '\n' :: z) :
    Takes l b (.comment ('#' :: u)) rest := by
  refine takes_of_cut plain (List.cons_ne_nil _ _) (HostToken.tokens_comment plain oneLine stop) ?_
    (not_opensBlock_oneLine (List.cons_ne_nil _ _) (by simp [oneLine]) b rest) ?_
    (fun _ h => by cases h) (fun h => by cases h)
  · exact (found_hash ..).trans (found_comment oneLine stop b '#')
  · intro name
    rw [not_name_newline stop] at name
    cases name

theorem takes_name (plain : opensBlock l.marker b.head? (u ++ rest) = false) (hu : u ≠ [])
    (names : ∀ d ∈ u, isNameChar d = true) (stop : rest.head?.any isNameChar = false)
    (unmarked : (Literal.marks? (u ++ rest)).any (!·.isEmpty) = false)
    (moved : l.found .code ⟨b, u ++ rest⟩ = l.found .code ⟨u.reverse ++ b, rest⟩)
    (refused : u = l.callName → ∀ gap v, argument rest ≠ .ok (gap, v)) :
    Takes l b (.name u) rest := by
  have oneLine : '\n' ∉ u := fun h => absurd (names _ h) (by decide)
  refine takes_of_cut plain hu (HostToken.tokens_name plain hu names stop unmarked) moved
    (not_opensBlock_oneLine hu oneLine b rest) ?_ (fun _ h => by cases h) ?_
  · intro name
    rw [stop] at name
    cases name
  · intro same
    exact refused (HostToken.name.inj same)

theorem takes_char (plain : opensBlock l.marker b.head? (c :: rest) = false) (line : c ≠ '\n')
    (hash : c ≠ '#') (name : isNameChar c = false) (quote : isQuote c = false) :
    Takes l b (.char c) rest := by
  refine takes_of_cut plain (List.cons_ne_nil c []) (HostToken.tokens_char plain hash name quote)
    (found_other line hash quote (by simp [name]) rest)
    (not_opensBlock_oneLine (List.cons_ne_nil c []) (by simp [line.symm]) b rest) ?_
    (fun _ h => by cases h) (fun h => by cases h)
  intro _
  exact name

theorem takes_newline (plain : opensBlock l.marker b.head? ('\n' :: t) = false) :
    Takes l b (.char '\n') t where
  moves := List.cons_ne_nil _ _
  cut := HostToken.tokens_char plain (by decide) (by decide) (by decide)
  passed := by
    change l.callsFrom b ('\n' :: t) = l.callsFrom ('\n' :: b) t
    rw [callsFrom_plain plain, found_newline]
    rfl
  fresh := fun _ => rfl
  read := fun _ h => by cases h
  refused := fun h => by cases h

theorem takes_literal {v : Literal} (plain : opensBlock l.marker b.head? (v.text ++ rest) = false)
    (read : Literal.read (v.text ++ rest) = .closed v rest)
    (start : v.marks ≠ [] → b.head?.any isNameChar = false)
    (moved : l.found .code ⟨b, v.text ++ rest⟩ = l.found .literal ⟨b, v.text ++ rest⟩) :
    Takes l b (.literal v) rest := by
  have moves : v.text ≠ [] := by
    obtain ⟨more, hq⟩ := v.quote.delimiter_eq_cons
    simp [Literal.text, hq]
  have behind := quote_behind b v
  refine takes_of_cut plain moves (HostToken.tokens_literal plain read start)
    (moved.trans (found_closed read b)) ?_ ?_ ?_ (fun h => by cases h)
  · rw [HostToken.text, behind]
    exact HostToken.not_opensBlock_quote ..
  · intro _
    rw [HostToken.text, behind]
    exact not_name_quote v
  · rintro u ⟨⟩
    exact read

theorem takes_unclosed {m : Text} (percent : l.marker.head? = some '%')
    (plain : opensBlock l.marker b.head? (u ++ rest) = false)
    (marks : Literal.marks? (u ++ rest) = some m) (start : m ≠ [] → b.head?.any isNameChar = false)
    (read : Literal.read (u ++ rest) = .unclosed rest) (hu : u ≠ [])
    (moved : l.found .code ⟨b, u ++ rest⟩ = l.found .literal ⟨b, u ++ rest⟩) :
    Takes l b (.unclosed u) rest := by
  have stop : rest = [] ∨ ∃ z, rest = '\n' :: z := by
    rcases Literal.read_unclosed read with ⟨none, -⟩ | ended | ⟨lead, z, line, -⟩
    · rw [marks] at none
      cases none
    · exact .inl ended
    · exact .inr ⟨z, line⟩
  refine takes_of_cut plain hu (HostToken.tokens_unclosed plain marks start read)
    (moved.trans (found_unclosed hu read b)) (HostToken.not_opensBlock_newline percent stop _) ?_
    (fun _ h => by cases h) (fun h => by cases h)
  intro name
  rw [not_name_newline stop] at name
  cases name

/-- A place behind the break of a line, or at the end. -/
def Ends (k : Cursor) : Prop := k.ahead = [] ∨ k.behind.head? = some '\n'

theorem ends_marker {s : Step} (h : Steps l b .lineStart t s) (marker : s.phase = .block) :
    Ends s.cursor := by
  cases h with
  | plainLine => cases marker
  | marker => exact .inr (by simp)
  | lastMarker => exact .inl rfl

theorem ends_block {s : Step} (h : Steps l b .block t s) (hb : b.head? = some '\n') :
    Ends s.cursor := by
  cases h with
  | blankRest => exact .inl rfl
  | @emptyBlock ls =>
    rcases List.eq_nil_or_concat ls with rfl | ⟨init, x, rfl⟩
    · exact .inr hb
    · exact .inr (by simp [Text.written])
  | @block ls x tail blank body stop =>
    rcases stop with rfl | ⟨z, rfl, -⟩
    · exact .inl rfl
    · exact .inr (by simp)

theorem callsFrom_of_ends {k : Cursor} (h : Ends k) :
    l.callsFrom k.behind k.ahead = (l.found .lineStart k).filter Fragment.isCall := by
  obtain ⟨behind, ahead⟩ := k
  rcases h with rfl | line
  · rw [callsFrom_nil, found_nil]
    rfl
  · dsimp only at line
    rw [callsFrom, line]
    rfl

theorem cursor_block (l : Locator) (k : Cursor) :
    (l.step .block k).cursor = k.skip (HostToken.blockLength l.marker k.ahead) := by
  rw [HostToken.blockLength, ← Cursor.skip_skip]
  rfl

/-- Behind a marker line the scan passes a block, which is no call. -/
theorem found_block_calls (l : Locator) (k : Cursor) :
    (l.found .block k).filter Fragment.isCall =
      (l.found .lineStart (k.skip (HostToken.blockLength l.marker k.ahead))).filter
        Fragment.isCall := by
  by_cases hk : k.ahead = []
  · obtain ⟨b, t⟩ := k
    dsimp only at hk
    rw [hk, found_nil, Cursor.skip]
    simp
  · rw [found_step rfl hk, ← cursor_block, List.filter_append]
    have none : ((l.step .block k).found.bind Finding.fragment?).toList.filter Fragment.isCall = [] := by
      simp only [step, inBlock]
      split <;> rfl
    rw [none]
    rfl

section Marked
open HostToken (markedLength)
variable (opens : opensBlock l.marker b.head? t = true)
include opens

theorem step_opens : l.step .lineStart ⟨b, t⟩ =
    { phase := .block, cursor := (⟨b, t⟩ : Cursor).skip ((line t).length + 1) } := by
  have marker : l.isMarkerLine (line t) = true := by
    rw [opensBlock, Bool.and_eq_true] at opens
    exact opens.2
  simp only [step, atLineStart, marker, if_true]

theorem ends_marked : Ends ((⟨b, t⟩ : Cursor).skip (markedLength l.marker t)) := by
  have form := steps_lineStart l b t
  rw [step_opens opens] at form
  rw [markedLength, ← Cursor.skip_skip]
  rcases ends_marker form rfl with ended | behind
  · exact .inl (by rw [Cursor.skip, ended, List.drop_nil])
  · have last := ends_block (steps_block l _ (t.drop ((line t).length + 1))) behind
    rwa [cursor_block] at last

theorem callsFrom_marked (ht : t ≠ []) :
    l.callsFrom b t =
      l.callsFrom ((t.take (markedLength l.marker t)).reverse ++ b)
        (t.drop (markedLength l.marker t)) := by
  have start : b.head?.all (· == '\n') = true := by
    rw [opensBlock, Bool.and_eq_true] at opens
    exact opens.1
  have behind := callsFrom_of_ends (l := l) (ends_marked opens)
  rw [Cursor.skip_mk] at behind
  rw [behind, callsFrom, phaseBehind, if_pos start, found_move (step_opens opens) ht rfl,
    found_block_calls, Cursor.skip_skip]
  rfl

/-- A marker line is taken with its block. -/
theorem takes_block (ht : t ≠ []) : ∃ x rest, t = x.text ++ rest ∧ Takes l b x rest := by
  have ends := ends_marked opens
  have passed := callsFrom_marked opens ht
  have cut := HostToken.tokens_block opens ht
  have whole := (List.take_append_drop (markedLength l.marker t) t).symm
  have moves : t.take (markedLength l.marker t) ≠ [] := by
    obtain ⟨c, z, rfl⟩ := List.exists_cons_of_ne_nil ht
    rw [markedLength, Nat.add_right_comm, List.take_succ_cons]
    exact List.cons_ne_nil c _
  rw [Cursor.skip_mk] at ends
  generalize t.take (markedLength l.marker t) = u at *
  generalize t.drop (markedLength l.marker t) = rest at *
  refine ⟨.block u, rest, whole, 
    ⟨moves, ?_, ?_, ?_, (fun _ h => by cases h), fun h => by cases h⟩⟩
  · rw [HostToken.text, ← whole, cut, head?_behind moves]
  · rw [HostToken.text, ← whole, passed]
  · intro name
    rcases ends with ended | behind
    · dsimp only at ended
      rw [ended] at name
      cases name
    · dsimp only at behind
      rw [HostToken.text, behind]
      rfl

end Marked

/-- What a text that is left begins with: a token that the scan takes, or a call with its argument. -/
theorem takes_or_argument (percent : l.marker.head? = some '%')
    (names : ∀ c ∈ l.callName, isNameChar c = true) (ht : t ≠ [])
    (fresh : t.head?.any isNameChar = true → b.head?.any isNameChar = false) :
    (∃ x rest, t = x.text ++ rest ∧ Takes l b x rest) ∨
      opensBlock l.marker b.head? t = false ∧ ∃ gap u w, t = l.callName ++ (gap ++ (u.text ++ w)) ∧
        l.Named b t (gap ++ (u.text ++ w)) ∧ argument (gap ++ (u.text ++ w)) = .ok (gap, u) := by
  cases plain : opensBlock l.marker b.head? t with
  | true => exact .inl (takes_block plain ht)
  | false =>
  have form := steps_step l .code b ht
  have moved {s : Step} := found_move (l := l) (p := .code) (k := ⟨b, t⟩) (s := s)
  generalize hs : l.step .code ⟨b, t⟩ = s at form
  cases form with
  | newline z => exact .inl ⟨.char '\n', z, rfl, takes_newline plain⟩
  | hash z =>
    obtain ⟨u, w, rfl, oneLine, stop⟩ := Text.exists_line z
    exact .inl ⟨.comment ('#' :: u), w, rfl, takes_comment plain oneLine stop⟩
  | opened marks start =>
    have entered := moved hs ht rfl
    cases read : Literal.read t with
    | closed v rest =>
      obtain ⟨sound, -, rfl⟩ := Literal.read_eq_closed_iff.1 read
      obtain rfl := Option.some.inj ((Literal.marks?_literal sound.marks rest).symm.trans marks)
      exact .inl ⟨.literal v, rest, rfl, takes_literal plain read start entered⟩
    | unclosed rest =>
      obtain ⟨u, hu, rfl, -⟩ := Literal.read_unclosed_append ht read
      exact .inl ⟨.unclosed u, rest, rfl, takes_unclosed percent plain marks start read hu entered⟩
  | argument named accepted => exact .inr ⟨rfl, _, _, _, rfl, named, accepted⟩
  | @refused rest reason named refused =>
    obtain ⟨-, called, stop⟩ := append_of_afterName? named.name
    refine .inl ⟨.name l.callName, rest, rfl,
      takes_name plain called names stop named.unmarked (found_refused named refused) ?_⟩
    intro _ gap v accepted
    rw [refused] at accepted
    cases accepted
  | @name c w z whole stop _ unmarked other =>
    refine .inl ⟨.name (c :: w), z, rfl,
      takes_name plain (List.cons_ne_nil c w) whole stop unmarked (moved hs ht rfl) ?_⟩
    intro same
    rw [← List.cons_append, same, afterName?_append (same ▸ List.cons_ne_nil c w) stop] at other
    cases other
  | @other c z line hash quote start =>
    have name : isNameChar c = false := by
      cases hc : isNameChar c with
      | false => rfl
      | true =>
        have behind := fresh (by simpa using hc)
        rw [hc, behind] at start
        cases start
    exact .inl ⟨.char c, z, rfl, takes_char plain line hash name quote⟩

/-- No call that was begun before has its argument ahead. -/
def Settled (name : Text) (before : List HostToken) (t : Text) : Prop :=
  ∀ gap rest, before = (gap.map HostToken.char).reverse ++ .name name :: rest →
    ∀ found u, argument (gap ++ t) ≠ .ok (found, u)

variable {name : Text} {before : List HostToken} {n : Nat}

theorem settled_nil (name t : Text) : Settled name [] t := by
  intro gap rest none
  simp at none

theorem settled_literal (name : Text) (u : Literal) (before : List HostToken) (t : Text) :
    Settled name (.literal u :: before) t := by
  intro gap rest whole
  rcases List.eq_nil_or_concat gap with rfl | ⟨gap, c, rfl⟩
  · cases whole
  · simp at whole

/-- A call stays without an argument while the gap behind its name is passed. -/
theorem Settled.take (settled : Settled name before (x.text ++ t))
    (refused : x = .name name → ∀ gap u, argument t ≠ .ok (gap, u)) :
    Settled name (x :: before) t := by
  intro gap rest whole
  rcases List.eq_nil_or_concat gap with rfl | ⟨gap, c, rfl⟩
  · obtain ⟨rfl, -⟩ := List.cons.inj whole
    exact refused rfl
  · rw [List.concat_eq_append, List.map_append, List.reverse_append] at whole
    obtain ⟨rfl, rfl⟩ := List.cons.inj whole
    have earlier := settled gap rest rfl
    rwa [List.concat_eq_append, List.append_assoc]

/-- No token that the scan takes is an argument. -/
theorem Takes.argument?_none (percent : l.marker.head? = some '%') (takes : Takes l b x rest)
    (settled : Settled l.callName before (x.text ++ rest)) (prev : Option Char) :
    HostToken.argument? l.callName before (tokens l.marker prev rest) x = none := by
  cases x with
  | literal u =>
    rw [HostToken.argument?, HostToken.closesCall_tokens percent]
    split
    · next accepted =>
      simp only [Bool.and_eq_true, Bool.not_eq_true'] at accepted
      obtain ⟨⟨bytes, opens⟩, closes⟩ := accepted
      obtain ⟨blanks, inner, more, rfl, hb, hg⟩ := HostToken.opensCall_iff.1 opens
      obtain ⟨sound, apart, -⟩ := Literal.read_eq_closed_iff.1 (takes.read u rfl)
      have argued := argument_eq_ok_iff.2
        ⟨blanks, inner, rest, rfl, rfl, hb, hg, sound, apart, bytes, closes⟩
      exact absurd argued (settled _ _ rfl _ _)
    · rfl
  | _ => rfl

theorem Takes.callsFrom_eq (percent : l.marker.head? = some '%') (takes : Takes l b x rest)
    (settled : Settled l.callName before (x.text ++ rest))
    (ih : l.callsFrom (x.text.reverse ++ b) rest =
      HostToken.arguments l.callName (Text.size (x.text.reverse ++ b)) (x :: before)
        (tokens l.marker (x.text.reverse ++ b).head? rest)) :
    l.callsFrom b (x.text ++ rest) =
      HostToken.arguments l.callName b.size before (tokens l.marker b.head? (x.text ++ rest)) := by
  have offset : Text.size (x.text.reverse ++ b) = b.size + x.text.size := by simp [Nat.add_comm]
  rw [takes.passed, takes.cut, HostToken.arguments, takes.argument?_none percent settled, ih, offset]
  rfl

section Argument
variable {gap w : Text} {v : Literal}

/-- What stands between the name of a call and its argument. -/
theorem gap_of_argument (accepted : argument (gap ++ (v.text ++ w)) = .ok (gap, v)) :
    gap ≠ [] ∧ ∀ c ∈ gap, isGap c = true ∨ c = '(' := by
  obtain ⟨blanks, inner, -, rfl, -, hb, hg, -⟩ := argument_eq_ok_iff.1 accepted
  exact ⟨by simp, opening_of_gap hb hg⟩

theorem quote_behind_argument (name gap : Text) (v : Literal) (b : Text) :
    ((name ++ (gap ++ v.text)).reverse ++ b).head? = some v.quote.char := by
  rw [← List.append_assoc, List.reverse_append, List.append_assoc, quote_behind]

theorem callsFrom_argument
    (plain : opensBlock l.marker b.head? (l.callName ++ (gap ++ (v.text ++ w))) = false)
    (named : l.Named b (l.callName ++ (gap ++ (v.text ++ w))) (gap ++ (v.text ++ w)))
    (accepted : argument (gap ++ (v.text ++ w)) = .ok (gap, v)) :
    l.callsFrom b (l.callName ++ (gap ++ (v.text ++ w))) =
      .ofLiteral (b.size + Text.size (l.callName ++ gap)) v ::
        l.callsFrom ((l.callName ++ (gap ++ v.text)).reverse ++ b) w := by
  have next : opensBlock l.marker ((l.callName ++ (gap ++ v.text)).reverse ++ b).head? w = false := by
    rw [quote_behind_argument]
    exact HostToken.not_opensBlock_quote ..
  rw [callsFrom_plain plain, found_argument named accepted, callsFrom_plain next,
    List.filter_cons_of_pos rfl]

theorem tokens_argument (percent : l.marker.head? = some '%')
    (names : ∀ c ∈ l.callName, isNameChar c = true)
    (plain : opensBlock l.marker b.head? (l.callName ++ (gap ++ (v.text ++ w))) = false)
    (named : l.Named b (l.callName ++ (gap ++ (v.text ++ w))) (gap ++ (v.text ++ w)))
    (accepted : argument (gap ++ (v.text ++ w)) = .ok (gap, v)) :
    tokens l.marker b.head? (l.callName ++ (gap ++ (v.text ++ w))) =
      .name l.callName :: (gap.map HostToken.char ++
        .literal v :: tokens l.marker v.text.getLast? w) := by
  obtain ⟨-, called, stop⟩ := append_of_afterName? named.name
  obtain ⟨filled, lead⟩ := gap_of_argument accepted
  obtain ⟨-, -, w', -, same, -, -, sound, apart, -⟩ := argument_eq_ok_iff.1 accepted
  obtain rfl : w = w' := List.append_cancel_left (List.append_cancel_left same)
  have marks := Literal.marks?_literal sound.marks w
  have read := Literal.read_eq_closed_iff.2 ⟨sound, apart, rfl⟩
  have opened : opensBlock l.marker gap.getLast? (v.text ++ w) = false :=
    HostToken.not_opensBlock_opened percent (u := []) (by simp) marks
  have fresh : gap.getLast?.any isNameChar = false := by
    rw [List.getLast?_eq_some_getLast filled]
    exact (plain_of_opening (lead _ (List.getLast_mem filled))).2.1
  calc tokens l.marker b.head? (l.callName ++ (gap ++ (v.text ++ w)))
      = .name l.callName :: tokens l.marker (l.callName.reverse ++ b).head? (gap ++ (v.text ++ w)) := by
        rw [HostToken.tokens_name plain called names stop named.unmarked, head?_behind called]
    _ = .name l.callName :: (gap.map HostToken.char ++ tokens l.marker gap.getLast? (v.text ++ w)) := by
        rw [HostToken.tokens_opened percent lead marks, head?_behind filled]
    _ = _ := by rw [HostToken.tokens_literal opened read fun _ => fresh]

theorem arguments_argument (percent : l.marker.head? = some '%') (prev : Option Char)
    (accepted : argument (gap ++ (v.text ++ w)) = .ok (gap, v)) :
    HostToken.arguments l.callName n before (.name l.callName :: (gap.map HostToken.char ++
        .literal v :: tokens l.marker prev w)) =
      .ofLiteral (n + Text.size (l.callName ++ gap)) v ::
        HostToken.arguments l.callName (n + Text.size (l.callName ++ (gap ++ v.text)))
          (.literal v :: ((gap.map HostToken.char).reverse ++ .name l.callName :: before))
          (tokens l.marker prev w) := by
  obtain ⟨blanks, inner, w', shape, same, hb, hg, sound, apart, bytes, closes⟩ :=
    argument_eq_ok_iff.1 accepted
  obtain rfl : w = w' := List.append_cancel_left (List.append_cancel_left same)
  have opens : HostToken.opensCall l.callName
      ((gap.map HostToken.char).reverse ++ .name l.callName :: before) = true :=
    HostToken.opensCall_iff.2 ⟨blanks, inner, before, by rw [shape], hb, hg⟩
  have argued : HostToken.argument? l.callName
      ((gap.map HostToken.char).reverse ++ .name l.callName :: before)
      (tokens l.marker prev w) (.literal v) = some v := by
    rw [HostToken.argument?, bytes, opens, HostToken.closesCall_tokens percent, closes]
    rfl
  rw [HostToken.arguments, HostToken.arguments_chars, HostToken.arguments, argued]
  simp [HostToken.argument?, HostToken.text, Nat.add_assoc]

end Argument

/-- The calls found from the end of a token on are the arguments among the tokens from there on: by
induction on the text that is left, of which each token takes a part, and a call with its argument
several tokens at once. -/
theorem callsFrom_eq (percent : l.marker.head? = some '%')
    (names : ∀ c ∈ l.callName, isNameChar c = true) (b t : Text) (before : List HostToken)
    (fresh : t.head?.any isNameChar = true → b.head?.any isNameChar = false)
    (settled : Settled l.callName before t) :
    l.callsFrom b t =
      HostToken.arguments l.callName b.size before (tokens l.marker b.head? t) := by
  by_cases ht : t = []
  · rw [ht, callsFrom_nil, HostToken.tokens_nil]
    rfl
  rcases takes_or_argument percent names ht fresh with
    ⟨x, rest, whole, takes⟩ | ⟨plain, gap, v, w, whole, named, accepted⟩
  · have shorter : rest.length < t.length := by
      have pos := List.length_pos_iff.2 takes.moves
      rw [whole, List.length_append]
      omega
    rw [whole] at settled ⊢
    exact takes.callsFrom_eq percent settled
      (callsFrom_eq percent names _ rest _ takes.fresh (settled.take takes.refused))
  · have shorter : w.length < t.length := by
      have pos := List.length_pos_iff.2 (append_of_afterName? named.name).2.1
      simp only [whole, List.length_append]
      omega
    have behind := quote_behind_argument l.callName gap v b
    have last : v.text.getLast? = some v.quote.char := by
      rw [← List.head?_reverse, ← List.append_nil v.text.reverse, quote_behind]
    have size : Text.size ((l.callName ++ (gap ++ v.text)).reverse ++ b) =
        b.size + Text.size (l.callName ++ (gap ++ v.text)) := by
      rw [Text.size_append, Text.size_reverse, Nat.add_comm]
    have fresh' : ((l.callName ++ (gap ++ v.text)).reverse ++ b).head?.any isNameChar = false := by
      rw [behind]
      exact not_name_quote v
    have more := callsFrom_eq percent names _ w
      (.literal v :: ((gap.map HostToken.char).reverse ++ .name l.callName :: before))
      (fun _ => fresh') (settled_literal _ v _ w)
    rw [behind, ← last, size] at more
    rw [whole] at plain named ⊢
    rw [callsFrom_argument plain named accepted, tokens_argument percent names plain named accepted,
      arguments_argument percent _ accepted, more]
termination_by t.length
decreasing_by
  · exact shorter
  · exact shorter

end
end Locator

open HostToken (tokens arguments)

/-- The calls that are located are the arguments among the tokens, one for one and in their order, where
a name of the call that is one name and a marker that starts with a percent sign are looked for, each
without the blanks around it. -/
theorem calls_eq_arguments (callName marker t : Text)
    (names : ∀ c ∈ callName.trim, isNameChar c = true) (percent : marker.trim.head? = some '%') :
    calls (Locator.of callName marker) t =
      arguments callName.trim 0 [] (tokens marker.trim none t) := by
  rw [Locator.calls_eq]
  exact Locator.callsFrom_eq percent names [] t [] (fun _ => rfl) (Locator.settled_nil _ t)

/-- A call that is refused for its second argument, which is a call itself; and calls in a comment and
in a block. -/
def nested : Text := "sql(f'1', sql(r'2',)) # sql('3')\n%%sql\nsql('4')".toList

theorem calls_eq_arguments_nested :
    calls (Locator.of "sql".toList "%%sql".toList) nested =
      [.ofLiteral 14 ⟨['r'], .single, ['2']⟩] := by
  have names : ∀ c ∈ Text.trim "sql".toList, isNameChar c = true := by
    rw [← List.all_eq_true]
    decide
  have percent : (Text.trim "%%sql".toList).head? = some '%' := by decide
  rw [calls_eq_arguments _ _ _ names percent]
  with_unfolding_all decide

/-- The no-break space is a character of names and a blank: as the last one of the name it is cut off,
and calls of the whole name are not found. -/
theorem calls_trimmed_name :
    (∀ c ∈ "sql\u00a0".toList, isNameChar c = true) ∧
      calls (Locator.of "sql\u00a0".toList "%%sql".toList) "sql\u00a0('x')".toList = [] ∧
      arguments "sql\u00a0".toList 0 [] (tokens "%%sql".toList none "sql\u00a0('x')".toList) =
        [.ofLiteral 6 ⟨[], .single, ['x']⟩] :=
  ⟨List.all_eq_true.1 (by decide), by with_unfolding_all decide, by with_unfolding_all decide⟩

end HostSql
