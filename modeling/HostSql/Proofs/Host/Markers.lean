import HostSql.Proofs.Host.Places

/-! Marker lines and the blocks behind them. A block that is found stands behind a marker line, with
blank lines at most between them, and it reaches as far as it can. In a text without quotes nothing
hides a marker line: there the blocks can be read off the lines alone, each marker line by itself. -/
namespace HostSql
open Text (written)
open Locator (line)

/-- A text taken apart around a marker line and the block behind it. -/
structure MarkedBlock where
  before : Text
  marker : Text
  /-- The lines between the marker line and the block. -/
  blank : List Text
  raw : Text
  /-- What the line break behind the block begins with. -/
  cr : Text
  rest : Text

namespace MarkedBlock

/-- All that stands before the block. -/
def lead (m : MarkedBlock) : Text := m.before ++ (m.marker ++ '\n' :: written m.blank)

def text (m : MarkedBlock) : Text := m.lead ++ (m.raw ++ (m.cr ++ m.rest))

/-- The byte at which the marker line begins. -/
def place (m : MarkedBlock) : Nat := m.before.size

def fragment (m : MarkedBlock) : Fragment := .ofBlock m.lead.size m.raw

structure Valid (l : Locator) (m : MarkedBlock) : Prop where
  lineStart : m.before = [] ∨ m.before.getLast? = some '\n'
  marker : '\n' ∉ m.marker ∧ m.marker.trim = l.marker
  blank : ∀ y ∈ m.blank, y.isBlankLine = true ∧ '\n' ∉ y
  body : ∀ y ∈ m.raw.lines, y.isBlankLine = false ∧ y.trim ≠ l.marker
  cr : m.cr = ['\r'] ∨ m.cr = [] ∧ m.raw.getLast? ≠ some '\r'
  rest : m.rest = [] ∨ ∃ z, m.rest = '\n' :: z ∧
    (z = [] ∨ (line z).isBlankLine = true ∨ (line z).trim = l.marker)

end MarkedBlock

/-- A block begins at the start of a line. -/
theorem MarkedBlock.lead_ends (m : MarkedBlock) : m.lead.getLast? = some '\n' := by
  rw [lead, ← List.append_assoc]
  exact Text.getLast?_written _ m.blank

namespace Locator
variable {l : Locator} {b t u x tail before : Text} {ls : List Text} {p : Phase} {k : Cursor}

theorem trim_of_isMarkerLine (h : l.isMarkerLine u = true) : l.marker ≠ [] ∧ u.trim = l.marker := by
  simpa [isMarkerLine] using h

/-- A marker line, blank lines and the longest run of lines behind them. -/
theorem exists_markedBlock (lineStart : before = [] ∨ before.getLast? = some '\n')
    (oneLine : '\n' ∉ u) (marker : l.isMarkerLine u = true)
    (blank : ∀ y ∈ ls, Text.isBlankLine y = true ∧ '\n' ∉ y)
    (body : ∀ y ∈ Text.lines x, l.continuesBlock y = true)
    (stop : tail = [] ∨ ∃ z, tail = '\n' :: z ∧ l.continuesBlock (line z) = false) :
    ∃ m : MarkedBlock, m.Valid l ∧ m.text = before ++ (u ++ '\n' :: (written ls ++ (x ++ tail))) ∧
      m.place = before.size ∧
      m.fragment = .ofBlock (before ++ (u ++ '\n' :: written ls)).size (withoutReturn x) := by
  obtain ⟨some, trimmed⟩ := trim_of_isMarkerLine marker
  obtain ⟨cr, whole, ends⟩ : ∃ cr, x = withoutReturn x ++ cr ∧
      (cr = ['\r'] ∨ cr = [] ∧ (withoutReturn x).getLast? ≠ Option.some '\r') := by
    rcases withoutReturn_cases x with h | ⟨h, last⟩
    · exact ⟨['\r'], h, .inl rfl⟩
    · exact ⟨[], by simpa using h, .inr ⟨rfl, h ▸ last⟩⟩
  refine ⟨⟨before, u, ls, withoutReturn x, cr, tail⟩,
    ⟨lineStart, ⟨oneLine, trimmed⟩, blank, ?_, ends, ?_⟩, ?_, rfl, rfl⟩
  · intro y hy
    have goesOn := lines_withoutReturn body y hy
    exact ⟨(continuesBlock_iff.1 goesOn).1, trim_ne_marker goesOn some⟩
  · rcases stop with ended | ⟨z, hz, stops⟩
    · exact .inl ended
    refine .inr ⟨z, hz, .inr ?_⟩
    cases blank : Text.isBlankLine (line z) with
    | true => exact .inl rfl
    | false => exact .inr (trim_of_isMarkerLine (isMarkerLine_of_stop stops blank)).2
  · conv => rhs; rw [whole]
    simp [MarkedBlock.text, MarkedBlock.lead]

section Located

/-- What stands behind a place: at the start of a line its line break, where a block is expected a
marker line. -/
def Preceded (l : Locator) : Phase → Text → Prop
  | .lineStart, b => b = [] ∨ b.head? = some '\n'
  | .block, b => ∃ before u, b.reverse = before ++ (u ++ ['\n']) ∧ '\n' ∉ u ∧
      l.isMarkerLine u = true ∧ (before = [] ∨ before.getLast? = some '\n')
  | _, _ => True

theorem preceded_of_steps {s : Step} (h : Steps l b p t s) (preceded : Preceded l p b)
    (more : s.cursor.ahead ≠ []) : Preceded l s.phase s.cursor.behind := by
  cases h with
  | @marker u t oneLine marker =>
    refine ⟨b.reverse, u, by simp, oneLine, marker, ?_⟩
    have start : b = [] ∨ b.head? = some '\n' := preceded
    simpa using start
  | newline => exact .inr rfl
  | lastMarker | blankRest => exact absurd rfl more
  | @emptyBlock ls =>
    right
    rcases List.eq_nil_or_concat ls with rfl | ⟨init, x, rfl⟩
    · obtain ⟨before, u, behind, -⟩ := preceded
      have last := congrArg List.getLast? behind
      simpa [written] using last
    · simp [written]
  | @block ls x tail blank body stop =>
    rcases stop with rfl | ⟨z, rfl, -⟩
    · exact absurd rfl more
    · exact .inr (by simp)
  | _ => exact trivial

theorem Reaches.preceded (h : l.Reaches t p k) (more : k.ahead ≠ []) : Preceded l p k.behind := by
  induction h with
  | start => exact .inl rfl
  | @next p k _ some ih => exact preceded_of_steps (steps_step l p k.behind some) (ih some) more

/-- Every block that is found is one of these. -/
theorem markedBlock_of_locate {f : Fragment} (h : f ∈ l.locate t) (kind : f.kind = .block) :
    ∃ m : MarkedBlock, m.Valid l ∧ m.text = t ∧ m.fragment = f := by
  obtain ⟨p, b, a, reached, more, finds⟩ := exists_reached h
  have preceded := reached.preceded more
  have whole := reached.whole
  cases finds with
  | argument => cases kind
  | @block ls x tail blank body stop =>
    obtain ⟨before, u, behind, oneLine, marker, lineStart⟩ := preceded
    obtain ⟨m, valid, text, -, fragment⟩ :=
      exists_markedBlock lineStart oneLine marker blank body stop
    refine ⟨m, valid, ?_, ?_⟩
    · rw [text, whole, behind]
      simp
    · have size := congrArg Text.size behind
      rw [Text.size_reverse] at size
      rw [fragment, size]
      simp [Nat.add_assoc]

end Located

section Quiet

/-- Where no literal stands ahead, a step in code passes a part of the line. -/
theorem exists_passed (oneName : '\n' ∉ l.callName) (b : Text)
    (quiet : ∀ c ∈ u ++ t, isQuote c = false) (some : u ≠ []) (oneLine : '\n' ∉ u)
    (stop : t = [] ∨ ∃ z, t = '\n' :: z) :
    ∃ w v, w ≠ [] ∧ u = w ++ v ∧
      l.found .code ⟨b, u ++ t⟩ = l.found .code ⟨w.reverse ++ b, v ++ t⟩ := by
  obtain ⟨c, u, rfl⟩ := List.exists_cons_of_ne_nil some
  have form := steps_code l b c (u ++ t)
  have found := found_move (l := l) (p := .code) (k := ⟨b, c :: (u ++ t)⟩) rfl (by simp)
  rw [← List.cons_append] at form found
  have within {w rest : Text} (same : c :: u ++ t = w ++ rest) (hw : '\n' ∉ w) :
      ∃ v, c :: u = w ++ v ∧ rest = v ++ t := Text.exists_append_of_oneLine same hw stop
  generalize hx : c :: u ++ t = x at form found quiet within ⊢
  generalize l.step .code ⟨b, x⟩ = s at form found
  cases form with
  | newline =>
    obtain ⟨rfl, -⟩ := List.cons.inj hx
    simp at oneLine
  | hash =>
    obtain ⟨rfl, rfl⟩ := List.cons.inj hx
    refine ⟨'#' :: u, [], by simp, by simp, ?_⟩
    rw [found rfl, List.nil_append]
    exact found_comment (fun h => oneLine (List.mem_cons_of_mem _ h)) stop b '#'
  | opened marks =>
    obtain ⟨-, d, rest, quote, rfl⟩ := Literal.marks?_eq_some_iff.1 marks
    rw [quiet d (by simp)] at quote
    cases quote
  | @argument gap w v =>
    have last := quote_behind [] v
    have inside : v.quote.char ∈ v.text := by
      have := List.mem_of_mem_head? last
      simpa using this
    have quote := quiet v.quote.char (by simp [inside])
    rw [v.quote.isQuote_char] at quote
    cases quote
  | @refused rest reason named =>
    obtain ⟨-, some, -⟩ := append_of_afterName? named.name
    obtain ⟨v, whole, rfl⟩ := within rfl oneName
    refine ⟨l.callName, v, some, whole, found ?_⟩
    dsimp only
    split <;> rfl
  | @name c w rest whole =>
    have plain : '\n' ∉ c :: w := fun h => by
      have := whole _ h
      cases this
    obtain ⟨v, passed, rfl⟩ := within rfl plain
    exact ⟨c :: w, v, by simp, passed, found rfl⟩
  | other =>
    obtain ⟨rfl, rfl⟩ := List.cons.inj hx
    exact ⟨[c], u, by simp, rfl, found rfl⟩

/-- So nothing is found up to the end of the line. -/
theorem found_quiet (oneName : '\n' ∉ l.callName) (b : Text) {u t : Text}
    (quiet : ∀ c ∈ u ++ t, isQuote c = false) (oneLine : '\n' ∉ u)
    (stop : t = [] ∨ ∃ z, t = '\n' :: z) :
    l.found .code ⟨b, u ++ t⟩ = l.found .code ⟨u.reverse ++ b, t⟩ := by
  by_cases some : u = []
  · rw [some]
    rfl
  obtain ⟨w, v, moves, rfl, passed⟩ := exists_passed oneName b quiet some oneLine stop
  have shorter : v.length < (w ++ v).length := by
    have := List.length_pos_iff.2 moves
    rw [List.length_append]
    omega
  have quietRest : ∀ c ∈ v ++ t, isQuote c = false := fun c hc => quiet c (by
    rw [List.append_assoc]
    exact List.mem_append_right w hc)
  have plain : '\n' ∉ v := fun h => oneLine (List.mem_append_right w h)
  have rest := found_quiet oneName (w.reverse ++ b) quietRest plain stop
  rw [passed, rest]
  simp
termination_by u.length

end Quiet

section Openers
variable {n : Nat} {rest : List Text}

/-- The bytes at which the marker lines begin that open a block: those whose next line that is not
blank exists and is no marker line itself. The first of the lines begins at byte `n`. -/
def openers (l : Locator) : Nat → List Text → List Nat
  | _, [] => []
  | n, x :: more =>
    let opens := l.isMarkerLine x && (more.find? (!·.isBlankLine)).any (!l.isMarkerLine ·)
    (if opens then [n] else []) ++ openers l (n + x.size + 1) more

theorem openers_plain (plain : ∀ x ∈ ls, l.isMarkerLine x = false) (n : Nat) (rest : List Text) :
    l.openers n (ls ++ rest) = l.openers (n + Text.size (written ls)) rest := by
  induction ls generalizing n with
  | nil => rfl
  | cons x ls ih =>
    obtain ⟨first, later⟩ := List.forall_mem_cons.1 plain
    have size : n + x.size + 1 + Text.size (written ls) = n + Text.size (written (x :: ls)) := by
      have newline : ('\n').utf8Size = 1 := rfl
      simp [written, Nat.add_assoc, newline]
    rw [List.cons_append, openers, ih later, size, first]
    rfl

/-- Blank lines behind a marker line do not count. -/
theorem openers_marker (marker : l.isMarkerLine u = true)
    (blank : ∀ x ∈ ls, Text.isBlankLine x = true) (n : Nat) (rest : List Text) :
    l.openers n (u :: (ls ++ rest)) =
      (if (rest.find? (!·.isBlankLine)).any (!l.isMarkerLine ·) then [n] else []) ++
        l.openers (n + u.size + 1 + Text.size (written ls)) rest := by
  have skipped : ls.find? (!·.isBlankLine) = none := by
    rw [List.find?_eq_none]
    intro x hx
    simp [blank x hx]
  rw [openers, openers_plain fun x hx => not_marker_of_blank (blank x hx), List.find?_append, skipped,
    marker]
  rfl

/-- The blocks behind a line start: what is found, one for each line that opens one, each standing in
the whole text. -/
structure Blocks (l : Locator) (b t : Text) (ms : List MarkedBlock) : Prop where
  found : l.found .lineStart ⟨b, t⟩ = ms.map MarkedBlock.fragment
  places : ms.map MarkedBlock.place = l.openers b.size t.lines
  valid : ∀ m ∈ ms, m.Valid l ∧ m.text = b.reverse ++ t

theorem size_behind (b u v : Text) :
    Text.size ((u ++ '\n' :: v).reverse ++ b) = b.size + u.size + 1 + v.size := by
  have newline : ('\n').utf8Size = 1 := rfl
  simp [newline]
  omega

namespace Blocks
variable {z : Text} {ms : List MarkedBlock}

theorem nil (l : Locator) (b : Text) : Blocks l b [] [] := by
  refine ⟨found_nil .., ?_, nofun⟩
  have plain : l.isMarkerLine [] = false := not_marker_of_blank rfl
  rw [Text.lines_eq_singleton List.not_mem_nil, openers, plain]
  rfl

theorem plainLine (oneName : '\n' ∉ l.callName) (quiet : ∀ c ∈ u ++ '\n' :: z, isQuote c = false)
    (oneLine : '\n' ∉ u) (plain : l.isMarkerLine u = false)
    (more : Blocks l ('\n' :: (u.reverse ++ b)) z ms) :
    Blocks l b (u ++ '\n' :: z) ms := by
  have begins : l.found .lineStart ⟨b, u ++ '\n' :: z⟩ = l.found .code ⟨b, u ++ '\n' :: z⟩ :=
    found_plainLine (by rwa [line_append_newline oneLine])
  have passed := found_quiet oneName b quiet oneLine (.inr ⟨z, rfl⟩)
  rw [found_newline] at passed
  have next : Text.size ('\n' :: (u.reverse ++ b)) = b.size + Text.size (written [u]) := by
    simp [written]
    omega
  refine ⟨begins.trans (passed.trans more.found), ?_, ?_⟩
  · rw [more.places, next, Text.lines_append_newline oneLine]
    exact (openers_plain (by simpa using plain) b.size (Text.lines z)).symm
  · simpa using more.valid

theorem lastLine (oneName : '\n' ∉ l.callName) (quiet : ∀ c ∈ u, isQuote c = false)
    (oneLine : '\n' ∉ u) : Blocks l b u [] := by
  refine ⟨?_, ?_, nofun⟩
  · cases marker : l.isMarkerLine u with
    | true => exact found_lastMarker oneLine marker b
    | false =>
      have passed := found_quiet oneName b (u := u) (t := []) (by simpa using quiet) oneLine (.inl rfl)
      rw [List.append_nil, found_nil] at passed
      rw [found_plainLine (by rwa [line_eq_self oneLine]), passed]
      rfl
  · simp [Text.lines_eq_singleton oneLine, openers]

theorem blankRest (oneLine : '\n' ∉ u) (marker : l.isMarkerLine u = true)
    (rest : ∀ x ∈ Text.lines z, Text.isBlankLine x = true) : Blocks l b (u ++ '\n' :: z) [] := by
  refine ⟨?_, ?_, nofun⟩
  · rw [found_marker oneLine marker, found_blankRest rest]
    rfl
  · have opened := openers_marker marker rest b.size []
    rw [List.append_nil] at opened
    rw [Text.lines_append_newline oneLine, opened]
    rfl

theorem emptyBlock (oneLine : '\n' ∉ u) (marker : l.isMarkerLine u = true)
    (blank : ∀ x ∈ ls, Text.isBlankLine x = true ∧ '\n' ∉ x)
    (solid : Text.isBlankLine (line z) = false) (stop : l.continuesBlock (line z) = false)
    (more : Blocks l ((u ++ '\n' :: written ls).reverse ++ b) z ms) :
    Blocks l b (u ++ '\n' :: (written ls ++ z)) ms := by
  obtain ⟨found, places, valid⟩ := more
  refine ⟨?_, ?_, by simpa using valid⟩
  · rw [found_marker oneLine marker, found_emptyBlock blank solid stop, ← found]
    simp
  · have second := isMarkerLine_of_stop stop solid
    obtain ⟨behind, lines⟩ := head?_lines z
    rw [places, Text.lines_append_newline oneLine, Text.lines_written fun x hx => (blank x hx).2,
      openers_marker marker fun x hx => (blank x hx).1]
    have opens : ((Text.lines z).find? (!·.isBlankLine)).any (!l.isMarkerLine ·) = false := by
      simp [lines, solid, second]
    rw [opens, size_behind]
    rfl

theorem block (lineStart : b = [] ∨ b.head? = some '\n') (oneLine : '\n' ∉ u)
    (marker : l.isMarkerLine u = true) (blank : ∀ x ∈ ls, Text.isBlankLine x = true ∧ '\n' ∉ x)
    (body : ∀ y ∈ Text.lines x, l.continuesBlock y = true)
    (stop : tail = [] ∨ ∃ z, tail = '\n' :: z ∧ l.continuesBlock (line z) = false)
    (more : Blocks l ((u ++ '\n' :: (written ls ++ (x ++ tail.take 1))).reverse ++ b)
      (tail.drop 1) ms) :
    ∃ m, Blocks l b (u ++ '\n' :: (written ls ++ (x ++ tail))) (m :: ms) := by
  obtain ⟨found, places, valid⟩ := more
  have begins : b.reverse = [] ∨ b.reverse.getLast? = some '\n' := by simpa using lineStart
  obtain ⟨m, holds, text, place, fragment⟩ :=
    exists_markedBlock begins oneLine marker blank body stop
  refine ⟨m, ?_, ?_, ?_⟩
  · have start : Text.size (b.reverse ++ (u ++ '\n' :: written ls)) =
        Text.size ((u ++ ['\n']).reverse ++ b) + Text.size (written ls) := by
      simp
      omega
    rw [found_marker oneLine marker, found_block blank body stop, List.map_cons, fragment, start,
      ← found]
    simp
  · obtain ⟨first, others, lines⟩ := List.exists_cons_of_ne_nil (Text.lines_ne_nil x)
    have solid := continuesBlock_iff.1 (body first (lines ▸ List.mem_cons_self))
    have plain : ∀ y ∈ Text.lines x, l.isMarkerLine y = false := fun y hy =>
      (continuesBlock_iff.1 (body y hy)).2
    obtain ⟨rest, split, later⟩ : ∃ rest, Text.lines (x ++ tail) = Text.lines x ++ rest ∧
        ms.map MarkedBlock.place =
          l.openers (b.size + u.size + 1 + Text.size (written ls) +
            Text.size (written (Text.lines x))) rest := by
      rw [places]
      rcases stop with rfl | ⟨z, rfl, -⟩
      · exact ⟨[], by simp, (nil l _).places.symm⟩
      · refine ⟨Text.lines z, Text.lines_append x z, ?_⟩
        rw [size_behind, Text.written_lines, Text.size_append, Nat.add_assoc _ (Text.size (written ls))]
        rfl
    have opens : ((Text.lines x ++ rest).find? (!·.isBlankLine)).any (!l.isMarkerLine ·) = true := by
      simp [lines, solid]
    rw [Text.lines_append_newline oneLine, Text.lines_written fun x hx => (blank x hx).2,
      openers_marker marker fun x hx => (blank x hx).1, split, opens, openers_plain plain, ← later,
      List.map_cons, place, Text.size_reverse]
    rfl
  · refine List.forall_mem_cons.2 ⟨⟨holds, text⟩, fun m hm => ⟨(valid m hm).1, ?_⟩⟩
    rw [(valid m hm).2]
    conv => rhs; rw [← List.take_append_drop 1 tail]
    simp

end Blocks

/-- In a text without quotes every marker line is met: by induction on the lines. -/
theorem exists_blocks (oneName : '\n' ∉ l.callName) (b t : Text) (quiet : ∀ c ∈ t, isQuote c = false)
    (lineStart : b = [] ∨ b.head? = some '\n') : ∃ ms, Blocks l b t ms := by
  rcases Text.lines_cases t with ⟨-, oneLine⟩ | ⟨u, z, oneLine, whole, -⟩
  · exact ⟨[], .lastLine oneName quiet oneLine⟩
  have shorter : z.length < t.length := by
    rw [whole, List.length_append, List.length_cons]
    omega
  rw [whole] at quiet ⊢
  have behind : ∀ c ∈ z, isQuote c = false := fun c hc =>
    quiet c (List.mem_append_right _ (List.mem_cons_of_mem _ hc))
  cases marker : l.isMarkerLine u with
  | false =>
    obtain ⟨ms, more⟩ := exists_blocks oneName ('\n' :: (u.reverse ++ b)) z behind (.inr rfl)
    exact ⟨ms, .plainLine oneName quiet oneLine marker more⟩
  | true =>
    rcases block_cases l z with rest | ⟨ls, v, rfl, blank, solid, stop⟩ |
      ⟨ls, x, tail, rfl, blank, body, stop⟩
    · exact ⟨[], .blankRest oneLine marker rest⟩
    · have lineStart : ((u ++ '\n' :: written ls).reverse ++ b).head? = some '\n' := by
        rw [List.head?_append, List.head?_reverse, Text.getLast?_written]
        rfl
      obtain ⟨ms, more⟩ := exists_blocks oneName _ v
        (fun c hc => behind c (List.mem_append_right _ hc)) (.inr lineStart)
      exact ⟨ms, .emptyBlock oneLine marker blank solid stop more⟩
    · obtain ⟨ms, more⟩ : ∃ ms, Blocks l
          ((u ++ '\n' :: (written ls ++ (x ++ tail.take 1))).reverse ++ b) (tail.drop 1) ms := by
        rcases stop with rfl | ⟨v, rfl, -⟩
        · exact ⟨[], .nil l _⟩
        · exact exists_blocks oneName _ v (fun c hc => behind c (by simp [hc])) (.inr (by simp))
      obtain ⟨m, blocks⟩ := Blocks.block lineStart oneLine marker blank body stop more
      exact ⟨m :: ms, blocks⟩
termination_by t.length
decreasing_by
  · exact shorter
  · rw [List.length_append] at shorter
    omega
  · simp only [List.length_append, List.length_cons] at shorter
    omega

end Openers

end Locator

section Unique
variable {l : Locator} {m m' : MarkedBlock}

/-- A line that a block goes on with. Other than in `continuesBlock` an empty marker counts. -/
def Locator.goesOn (l : Locator) (y : Text) : Bool := !y.isBlankLine && y.trim != l.marker

namespace MarkedBlock

/-- The carriage return that is left out of a block does not change what its lines are. -/
theorem Valid.goesOn (h : m.Valid l) : ∀ y ∈ Text.lines (m.raw ++ m.cr), l.goesOn y = true := by
  have body : ∀ y ∈ m.raw.lines, l.goesOn y = true := fun y hy => by
    obtain ⟨solid, other⟩ := h.body y hy
    simp [Locator.goesOn, solid, other]
  rcases h.cr with cr | ⟨cr, -⟩
  · rw [cr]
    refine (Text.forall_lines_concat (by decide) (fun y => ?_) m.raw).2 body
    rw [Locator.goesOn, Locator.goesOn, Text.isBlankLine_return, Text.trim_concat y (by decide)]
  · rwa [cr, List.append_nil]

/-- The lines ahead of a marker line say which of them are the block. -/
theorem Valid.lines (h : m.Valid l) :
    ∃ more, Text.lines (written m.blank ++ ((m.raw ++ m.cr) ++ m.rest)) =
        m.blank ++ (Text.lines (m.raw ++ m.cr) ++ more) ∧
      more.takeWhile l.goesOn = [] := by
  have plain : ∀ y ∈ m.blank, '\n' ∉ y := fun y hy => (h.blank y hy).2
  rw [Text.lines_written plain]
  rcases h.rest with rest | ⟨z, rest, stop⟩
  · exact ⟨[], by simp [rest], rfl⟩
  · obtain ⟨more, lines⟩ := Locator.head?_lines z
    refine ⟨Text.lines z, by rw [rest, Text.lines_append], ?_⟩
    rw [lines, List.takeWhile_cons_of_neg]
    rcases stop with rfl | blank | marker
    · simp [Locator.goesOn, line, Text.isBlankLine]
    · simp [Locator.goesOn, blank]
    · simp [Locator.goesOn, marker]

theorem Valid.blank_eq (h : m.Valid l) :
    (Text.lines (written m.blank ++ ((m.raw ++ m.cr) ++ m.rest))).takeWhile
      Text.isBlankLine = m.blank ∧
    ((Text.lines (written m.blank ++ ((m.raw ++ m.cr) ++ m.rest))).dropWhile
      Text.isBlankLine).takeWhile l.goesOn = Text.lines (m.raw ++ m.cr) := by
  obtain ⟨more, lines, stop⟩ := h.lines
  obtain ⟨first, others, body⟩ := List.exists_cons_of_ne_nil (Text.lines_ne_nil (m.raw ++ m.cr))
  have blank : ∀ y ∈ m.blank, Text.isBlankLine y = true := fun y hy => (h.blank y hy).1
  have solid : first.isBlankLine = false := by
    have goesOn := h.goesOn first (body ▸ List.mem_cons_self)
    simp only [Locator.goesOn, Bool.and_eq_true, Bool.not_eq_true'] at goesOn
    exact goesOn.1
  rw [lines, List.takeWhile_append_of_pos blank, List.dropWhile_append_of_pos blank]
  constructor
  · rw [body, List.cons_append, List.takeWhile_cons_of_neg (by simp [solid]), List.append_nil]
  · have whole : (Text.lines (m.raw ++ m.cr) ++ more).dropWhile Text.isBlankLine =
        Text.lines (m.raw ++ m.cr) ++ more := by
      rw [body, List.cons_append, List.dropWhile_cons_of_neg (by simp [solid])]
    rw [whole, List.takeWhile_append_of_pos h.goesOn, stop, List.append_nil]

theorem Valid.raw_eq (h : m.Valid l) : Locator.withoutReturn (m.raw ++ m.cr) = m.raw := by
  rcases h.cr with cr | ⟨cr, last⟩
  · simp [Locator.withoutReturn, cr]
  · simp [Locator.withoutReturn, cr, last]

/-- A text and the place of a marker line determine the block behind it. -/
theorem Valid.unique (h : m.Valid l) (h' : m'.Valid l) (text : m.text = m'.text)
    (place : m.place = m'.place) : m = m' := by
  have cut (m : MarkedBlock) : m.text.before m.place = m.before ∧ m.text.after m.place =
      m.marker ++ '\n' :: (written m.blank ++ ((m.raw ++ m.cr) ++ m.rest)) := by
    have shape : m.text =
        m.before ++ (m.marker ++ '\n' :: (written m.blank ++ ((m.raw ++ m.cr) ++ m.rest))) := by
      simp [MarkedBlock.text, lead]
    rw [shape, MarkedBlock.place, Text.before_size, Text.after_size]
    exact ⟨rfl, rfl⟩
  have before : m.before = m'.before := by rw [← (cut m).1, ← (cut m').1, text, place]
  have after := (cut m).2
  rw [text, place, (cut m').2] at after
  have marker : m.marker = m'.marker := by
    have first := congrArg line after
    rw [Locator.line_append_newline h.marker.1, Locator.line_append_newline h'.marker.1] at first
    exact first.symm
  rw [marker] at after
  obtain ⟨-, ahead⟩ := List.cons.inj (List.append_cancel_left after.symm)
  have blank : m.blank = m'.blank := by rw [← h.blank_eq.1, ← h'.blank_eq.1, ahead]
  have lines : Text.lines (m.raw ++ m.cr) = Text.lines (m'.raw ++ m'.cr) := by
    rw [← h.blank_eq.2, ← h'.blank_eq.2, ahead]
  have body : m.raw ++ m.cr = m'.raw ++ m'.cr := by
    rw [← Text.ofLines_lines (m.raw ++ m.cr), lines, Text.ofLines_lines]
  have raw : m.raw = m'.raw := by rw [← h.raw_eq, ← h'.raw_eq, body]
  have cr : m.cr = m'.cr := by
    rw [raw] at body
    exact List.append_cancel_left body
  have rest : m.rest = m'.rest := by
    rw [blank, body] at ahead
    exact List.append_cancel_left (List.append_cancel_left ahead)
  cases m
  cases m'
  simp_all

end MarkedBlock
end Unique

namespace Locator

/-- Every block stands behind a marker line and reaches as far as it can. In a text without quotes the
blocks are those of the marker lines that open one, in order. -/
theorem locate_markedBlocks (l : Locator) (t : Text) :
    (∀ f ∈ l.locate t, f.kind = .block →
      ∃ m : MarkedBlock, m.Valid l ∧ m.text = t ∧ m.fragment = f ∧ m.lead.getLast? = some '\n') ∧
    ((∀ c ∈ t, isQuote c = false) → '\n' ∉ l.callName →
      ∃ ms : List MarkedBlock, l.locate t = ms.map MarkedBlock.fragment ∧
        ms.map MarkedBlock.place = l.openers 0 t.lines ∧ ∀ m ∈ ms, m.Valid l ∧ m.text = t) ∧
    ∀ m m' : MarkedBlock, m.Valid l → m'.Valid l → m.text = m'.text → m.place = m'.place →
      m = m' := by
  refine ⟨fun f hf kind => ?_, fun quiet oneName => ?_, fun m m' h h' => h.unique h'⟩
  · obtain ⟨m, valid, text, fragment⟩ := markedBlock_of_locate hf kind
    exact ⟨m, valid, text, fragment, m.lead_ends⟩
  · obtain ⟨ms, found, places, valid⟩ := exists_blocks oneName [] t quiet (.inl rfl)
    exact ⟨ms, (locate_eq_found l t).trans found, places, valid⟩

/-- Two markers, of which the first is followed by the second, and lines that end with a carriage
return. -/
def cells : Text := "%%sql\r\n%%sql \n\n \nselect 1\r\nfrom t\r\n\t\n%%sql\n".toList

def cellMagic : Locator := of "sql".toList "%%sql".toList

theorem locate_markedBlocks_cells :
    (∀ c ∈ cells, isQuote c = false) ∧ '\n' ∉ cellMagic.callName ∧
      ∃ m : MarkedBlock, cellMagic.locate cells = [m.fragment] ∧ m.place = 7 ∧ m.Valid cellMagic ∧
        m.text = cells := by
  have all : cells.all (!isQuote ·) = true := by decide
  have quiet : ∀ c ∈ cells, isQuote c = false := fun c hc => by
    simpa using List.all_eq_true.1 all c hc
  have oneName : '\n' ∉ cellMagic.callName := by decide
  have opens : cellMagic.openers 0 cells.lines = [7] := by decide
  obtain ⟨ms, found, places, valid⟩ := (locate_markedBlocks cellMagic cells).2.1 quiet oneName
  rw [opens] at places
  obtain ⟨m, rfl, place⟩ := List.map_eq_singleton_iff.1 places
  exact ⟨quiet, oneName, m, found, place, valid m List.mem_cons_self⟩

end Locator
end HostSql
