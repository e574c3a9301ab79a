import HostSql.Proofs.Host.Bytes
import HostSql.Proofs.Host.Places
import HostSql.Proofs.Replacement
import HostSql.Proofs.Splice.Weave

/-! What the locator finds can always be replaced: its fragments stand in the text one behind the
other, whatever the name of the call and the marker are, and so the check of the spans accepts them. -/
namespace HostSql

/-- A fragment and its parts stand in `t` where its spans say. -/
structure Fragment.StandsIn (f : Fragment) (t : Text) : Prop where
  span : t.Covers f.span f.text
  content : t.Covers f.content f.raw
  call : f.kind = .call → ∃ q, f.quote = some q ∧
    t.slice f.span = f.marks ++ q.delimiter ++ f.raw ++ q.delimiter
  block : f.kind = .block → f.content = f.span ∧ f.raw ≠ []

namespace Fragment
variable {l : Locator} {f : Fragment} {u t : Text}

/-- A fragment as it is found stands wherever its span covers it. -/
theorem standsIn_of_shaped (shaped : Shaped l f) (covers : t.Covers f.span f.text) :
    f.StandsIn t := by
  cases shaped with
  | @literal n v sound =>
    obtain ⟨u, w, rfl, span⟩ := covers.stands
    obtain rfl : n = u.size := congrArg Span.start span
    have whole : u ++ (v.text ++ w) =
        (u ++ (v.marks ++ v.quote.delimiter)) ++ (v.body ++ (v.quote.delimiter ++ w)) := by
      simp [Literal.text]
    have content := Text.covers_between (u ++ (v.marks ++ v.quote.delimiter)) v.body
      (v.quote.delimiter ++ w)
    rw [Text.size_append, ← whole] at content
    exact ⟨covers, content, fun _ => ⟨v.quote, rfl, covers.text⟩, fun kind => by cases kind⟩
  | @block n x body =>
    exact ⟨covers, covers, (fun kind => by cases kind), fun _ => ⟨rfl, Locator.ne_nil_of_continues body⟩⟩

end Fragment

namespace Locator
variable {l : Locator} {t : Text} {k : Cursor}

/-- A literal that is scanned byte by byte ends where the step over it ends. -/
theorem stop_scan_reached (reached : l.Reaches t .literal k) (more : k.ahead ≠ []) :
    (Literal.scan t.bytes k.offset).stop = (l.step .literal k).cursor.offset := by
  have marked : (Literal.marks? k.ahead).isSome = true := reached.ready
  have scanned := Literal.stop_scan marked k.behind.reverse
  obtain ⟨b, a⟩ := k
  rw [← reached.whole, Text.size_reverse] at scanned
  rw [Cursor.offset, scanned]
  dsimp only at *
  cases read : Literal.read a with
  | closed u w =>
    obtain ⟨-, -, rfl⟩ := Literal.read_eq_closed_iff.1 read
    rw [step_closed read, Cursor.offset]
    dsimp only
    rw [Text.size_append, Text.size_reverse, Nat.add_comm]
  | unclosed w =>
    obtain ⟨u, -, rfl, -⟩ := Literal.read_unclosed_append more read
    rw [step_unclosed read, Cursor.offset]
    dsimp only
    rw [Text.size_append, Text.size_append, Text.size_reverse, Nat.add_sub_cancel, Nat.add_comm]

end Locator

namespace Splice
variable {n : Nat} {t : Text} {fs : List Fragment}

theorem placed_of_owned (h : Owned n t fs) : Placed n t fs := by
  induction h with
  | rest => exact .rest _ _
  | next gap span _ ih => exact .next gap _ span ih

theorem placed_locate (l : Locator) (t : Text) : Placed 0 t (l.locate t) :=
  placed_of_owned (l.owned_locate t)

theorem fault?_locate (l : Locator) (t : Text) : fault? t 0 (l.locate t) = none :=
  (fault?_eq_none_iff (u := [])).2 (placed_locate l t)

theorem slice_located {l : Locator} {f : Fragment} (hf : f ∈ l.locate t) : t.slice f.span = f.text :=
  ((l.owned_locate t).covers (v := []) hf).text

/-- What can come to stand for a fragment: its own text, for a call a literal with the same marks, for
a block lines that hold something, or nothing. -/
inductive Fills (f : Fragment) : Text → Prop
  | own : Fills f f.text
  | literal {q : Quote} {body : Text} (kind : f.kind = .call) (encloses : q.Encloses body) :
      Fills f (⟨f.marks, q, body⟩ : Literal).text
  | lines {x : Text} (kind : f.kind = .block) (filled : ∀ y ∈ Text.lines x, y.isBlankLine = false)
      (ends : x.getLast? ≠ some '\r') : Fills f x
  | nothing (kind : f.kind = .block) : Fills f []

theorem fills_standing {format : Formatter} {c : Config} {l : Locator} {f : Fragment}
    (hf : f ∈ l.locate t) : Fills f (standing format c t f) := by
  unfold standing
  cases hr : replacement format c t f with
  | error =>
    dsimp only
    rw [slice_located hf]
    exact .own
  | ok new =>
    dsimp only
    obtain ⟨m, formatted, sql, -, -, -, place, -⟩ := replacement_eq_ok_iff.1 hr
    unfold Replacement.place at place
    split at place
    · next kind quote =>
      obtain ⟨q, body, fits, rfl, -⟩ := Replacement.delimit_cases place
      exact .literal kind (Quote.fits_iff.1 fits)
    · cases place
    · next kind =>
      by_cases none : new = []
      · rw [none]
        exact .nothing kind
      · obtain ⟨filled, ends⟩ := Replacement.blockLines_ok place none
        exact .lines kind filled ends

/-- Splicing what was located succeeds, whatever the formatter does. -/
theorem exists_splice (format : Formatter) (c : Config) (l : Locator) (t : Text) :
    ∃ s, splice format c t (l.locate t) = .ok s :=
  ⟨_, splice_of_placed format c (fault?_locate l t)⟩

end Splice

/-- For every text, call name and marker: the fragments that are found ascend and are disjoint, and
each of them and its parts stand in the text where its spans say. No text that the run looks at on
its way leaves the text or begins or ends inside a character: a literal that is scanned byte by byte
ends where reading its characters ends, and a character that is passed by one byte has no more. So
splicing never refuses what was located. -/
theorem locate_stands (l : Locator) (t : Text) :
    (∀ f ∈ l.locate t, f.StandsIn t) ∧
    (l.locate t).Pairwise (fun f g => f.span.stop ≤ g.span.start) ∧
    (∀ n x, l.Reads t n x → t.Covers ⟨n, n + x.size⟩ x) ∧
    (∀ k, l.Reaches t .literal k → k.ahead ≠ [] →
      (Literal.scan t.bytes k.offset).stop = (l.step .literal k).cursor.offset) ∧
    (∀ k c u, l.Reaches t .code k → k.ahead = c :: u → c.utf8Size ≠ 1 →
      isNameChar c = true ∧ k.followsName = false) ∧
    Splice.fault? t 0 (l.locate t) = none ∧
    ∀ format c, ∃ s, splice format c t (l.locate t) = .ok s := by
  have owned := l.owned_locate t
  refine ⟨?_, owned.ascending, fun n x read => read.covers, ?_, ?_, ?_, ?_⟩
  · intro f hf
    exact Fragment.standsIn_of_shaped (Locator.shaped_of_locate hf) (owned.covers (v := []) hf)
  · intro k reached more
    exact Locator.stop_scan_reached reached more
  · intro k c u reached ahead long
    exact reached.fresh ahead long
  · exact Splice.fault?_locate l t
  · intro format c
    exact Splice.exists_splice format c l t

end HostSql
