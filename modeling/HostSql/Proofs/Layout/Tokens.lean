import HostSql.Layout.Lines
import HostSql.Proofs.Text.Cuts

/-! The tokens of a text, one behind the other, and the bytes that they cover. A token is found again
by its line and column: walking over the tokens before it leads to the place where it starts, and
no character on the way has its location. -/
namespace HostSql

namespace Sql
open Lexer (first tokensFrom)

/-- The tokens of a text, each cut off its front as the lexer reads it there. -/
inductive Lexes (d : Dialect) : Text → List Token → Prop
  | nil : Lexes d [] []
  | cons {c : Char} {t : Text} {kind : TokenKind} {n : Nat} {ks : List Token}
      (token : first d c t = some (kind, n)) (more : Lexes d (t.drop n) ks) :
      Lexes d (c :: t) (⟨kind, c :: t.take n⟩ :: ks)

/-- Tokens that stand one behind the other, with their locations. -/
def located (l : Location) : List Token → List LocatedToken
  | [] => []
  | k :: ks => ⟨k, l⟩ :: located (l.past k.text) ks

def texts (ks : List Token) : List Text := ks.map (·.text)

section
variable {d : Dialect} {c : Char} {t : Text} {l : Location} {k : Token} {ks ks' : List Token}

@[simp] theorem texts_nil : texts [] = [] := rfl

@[simp] theorem texts_cons (k : Token) (ks : List Token) : texts (k :: ks) = k.text :: texts ks := rfl

@[simp] theorem texts_append (ks ks' : List Token) : texts (ks ++ ks') = texts ks ++ texts ks' :=
  List.map_append

theorem map_token_located (l : Location) (ks : List Token) : (located l ks).map (·.token) = ks := by
  induction ks generalizing l with
  | nil => rfl
  | cons k ks ih => rw [located, List.map_cons, ih]

theorem tokensFrom_cons (d : Dialect) (l : Location) (c : Char) (t : Text) :
    tokensFrom d l (c :: t) = (first d c t).bind fun (kind, n) =>
      (tokensFrom d (l.past (c :: t.take n)) (t.drop n)).map (⟨⟨kind, c :: t.take n⟩, l⟩ :: ·) := by
  rw [tokensFrom]
  cases first d c t with
  | none => rfl
  | some token =>
    obtain ⟨kind, n⟩ := token
    simp only [Option.bind_eq_bind, Option.bind_some]
    cases tokensFrom d (l.past (c :: t.take n)) (t.drop n) <;> rfl

theorem lexes_of_tokensFrom {l : Location} {t : Text} {ls : List LocatedToken}
    (h : tokensFrom d l t = some ls) : ∃ ks, Lexes d t ks ∧ ls = located l ks := by
  match t, h with
  | [], h =>
    rw [tokensFrom] at h
    cases h
    exact ⟨[], .nil, rfl⟩
  | c :: t, h =>
    rw [tokensFrom_cons] at h
    obtain ⟨⟨kind, n⟩, token, h⟩ := Option.bind_eq_some_iff.1 h
    obtain ⟨more, rest, rfl⟩ := Option.map_eq_some_iff.1 h
    obtain ⟨ks, lexes, rfl⟩ := lexes_of_tokensFrom rest
    exact ⟨_, .cons token lexes, rfl⟩
termination_by t.length
decreasing_by simp only [List.length_drop, List.length_cons]; omega

theorem Lexes.tokensFrom (h : Lexes d t ks) (l : Location) :
    Lexer.tokensFrom d l t = some (located l ks) := by
  induction h generalizing l with
  | nil => rw [Lexer.tokensFrom]; rfl
  | cons token more ih =>
    rw [tokensFrom_cons, token, Option.bind_some]
    dsimp only
    rw [ih]
    rfl

/-- The tokens of a text are these, and there is one way only to read them. -/
theorem tokens?_eq_some_iff {ls : List LocatedToken} :
    tokens? d t = some ls ↔ ∃ ks, Lexes d t ks ∧ ls = located {} ks := by
  constructor
  · exact lexes_of_tokensFrom
  · rintro ⟨ks, h, rfl⟩
    exact h.tokensFrom {}

theorem Lexes.unique (h : Lexes d t ks) (h' : Lexes d t ks') : ks = ks' := by
  have same := (h.tokensFrom {}).symm.trans (h'.tokensFrom {})
  rw [← map_token_located {} ks, Option.some.inj same, map_token_located]

/-- Tokens put together are the text. -/
theorem Lexes.flatten (h : Lexes d t ks) : (texts ks).flatten = t := by
  induction h with
  | nil => rfl
  | cons token more ih =>
    rw [texts_cons, List.flatten_cons, ih, List.cons_append, List.take_append_drop]

/-- A token is read off what its text and the tokens behind it make up. -/
theorem Lexes.exists_first {before after : List Token}
    (h : Lexes d t (before ++ k :: after)) :
    ∃ c u n, t = (texts before).flatten ++ c :: u ∧ first d c u = some (k.kind, n) ∧
      k.text = c :: u.take n := by
  induction before generalizing t with
  | nil =>
    cases h with
    | @cons c u kind n _ token _ => exact ⟨c, u, n, rfl, token, rfl⟩
  | cons x before ih =>
    cases h with
    | @cons e w kind m _ token more =>
      obtain ⟨c, u, n, whole, rest⟩ := ih more
      refine ⟨c, u, n, ?_, rest⟩
      rw [texts_cons, List.flatten_cons, List.append_assoc, ← whole, List.cons_append,
        List.take_append_drop]

end
end Sql

namespace Layout
open Sql

/-- The bytes of texts that stand one behind the other, the first at byte `n`. -/
def spansFrom (n : Nat) : List Text → List Span
  | [] => []
  | x :: xs => ⟨n, n + x.size⟩ :: spansFrom (n + x.size) xs

/-- The locations of texts that stand one behind the other. -/
def locations (l : Location) : List Text → List Location
  | [] => []
  | x :: xs => l :: locations (l.past x) xs

def spanned (n : Nat) (ks : List Token) : List SpannedToken :=
  ks.zipWith (fun k s => ⟨k, s⟩) (spansFrom n (texts ks))

section
variable {d : Dialect} {sql t u : Text} {l l' : Location} {n : Nat} {ks : List Token}

theorem spanned_cons (n : Nat) (k : Token) (ks : List Token) :
    spanned n (k :: ks) = ⟨k, ⟨n, n + k.text.size⟩⟩ :: spanned (n + k.text.size) ks := rfl

theorem map_token_spanned (n : Nat) (ks : List Token) : (spanned n ks).map (·.token) = ks := by
  induction ks generalizing n with
  | nil => rfl
  | cons k ks ih => rw [spanned_cons, List.map_cons, ih]

theorem map_span_spanned (n : Nat) (ks : List Token) :
    (spanned n ks).map (·.span) = spansFrom n (texts ks) := by
  induction ks generalizing n with
  | nil => rfl
  | cons k ks ih => rw [spanned_cons, List.map_cons, ih, texts_cons, spansFrom]

theorem map_location_located (l : Location) (ks : List Token) :
    (located l ks).map (·.location) = locations l (texts ks) := by
  induction ks generalizing l with
  | nil => rfl
  | cons k ks ih => rw [located, List.map_cons, ih, texts_cons, locations]

theorem isBefore_irrefl (l : Location) : l.isBefore l = false := by
  simp [Location.isBefore]

theorem isBefore_trans (h : l.isBefore l' = true) {l'' : Location} (h' : l'.isBefore l'' = true) :
    l.isBefore l'' = true := by
  simp only [Location.isBefore, Bool.or_eq_true, Bool.and_eq_true, decide_eq_true_eq, beq_iff_eq] at *
  omega

theorem isBefore_next (l : Location) (c : Char) : l.isBefore (l.next c) = true := by
  unfold Location.next
  split <;> simp [Location.isBefore]

/-- Every character leads to a later location. -/
theorem isBefore_past (l : Location) (c : Char) (t : Text) : l.isBefore (l.past (c :: t)) = true := by
  induction t generalizing l c with
  | nil => exact isBefore_next l c
  | cons e t ih => exact isBefore_trans (isBefore_next l c) (ih (l.next c) e)

/-- So a walk over a text stops behind it and not before. -/
theorem to?_past (l : Location) (n : Nat) (u t : Text) :
    Walk.to? (l.past u) ⟨l, n, u ++ t⟩ = some ⟨l.past u, n + u.size, t⟩ := by
  induction u generalizing l n with
  | nil =>
    cases t with
    | nil => simp [Walk.to?, Location.past, isBefore_irrefl]
    | cons c t => simp [Walk.to?, Location.past, isBefore_irrefl]
  | cons c u ih =>
    rw [List.cons_append, Walk.to?, if_pos (isBefore_past l c u)]
    have later := ih (l.next c) (n + c.utf8Size)
    rw [Text.size_cons, ← Nat.add_assoc]
    exact later

/-- The texts behind `u` start where the walk comes to them. -/
theorem starts?_locations (l : Location) (n : Nat) (u : Text) (xs : List Text) :
    starts? ⟨l, n, u ++ xs.flatten⟩ (locations (l.past u) xs) =
      some ((spansFrom (n + u.size) xs).map (·.start)) := by
  induction xs generalizing l n u with
  | nil => rfl
  | cons x xs ih =>
    rw [locations, starts?, to?_past, List.flatten_cons]
    have later := ih (l.past u) (n + u.size) x
    simp only [Option.bind_eq_bind, Option.bind_some, later]
    rfl

theorem spansTo_starts (n : Nat) (xs : List Text) :
    spansTo (n + Text.size xs.flatten) ((spansFrom n xs).map (·.start)) = spansFrom n xs := by
  induction xs generalizing n with
  | nil => rfl
  | cons x xs ih =>
    cases xs with
    | nil => simp [spansFrom, spansTo]
    | cons y ys =>
      have later := ih (n + x.size)
      simp only [List.flatten_cons, Text.size_append, Nat.add_assoc] at later
      simp only [spansFrom, List.map_cons, spansTo, List.flatten_cons, Text.size_append] at later ⊢
      rw [← later]

/-- Texts that are told by their locations cover the bytes from the end of the one before on. -/
theorem spans?_locations (xs : List Text) :
    spans? xs.flatten (locations {} xs) = some (spansFrom 0 xs) := by
  have starts := starts?_locations {} 0 [] xs
  have stops := spansTo_starts 0 xs
  rw [Nat.zero_add] at stops
  exact (congrArg (Option.map _) starts).trans (congrArg some stops)

/-- A text has its tokens exactly if it can be cut into them, and each covers the bytes from the end of
the one before it on. -/
theorem tokenize_eq_some_iff {ts : List SpannedToken} :
    tokenize d sql = some ts ↔ ∃ ks, Lexes d sql ks ∧ ts = spanned 0 ks := by
  have cut {ks : List Token} (h : Lexes d sql ks) :
      spans? sql ((located {} ks).map (·.location)) = some (spansFrom 0 (texts ks)) := by
    have spans := spans?_locations (texts ks)
    rwa [h.flatten, ← map_location_located] at spans
  have whole {ks : List Token} (h : Lexes d sql ks) : tokenize d sql = some (spanned 0 ks) := by
    have lexed := tokens?_eq_some_iff.2 ⟨ks, h, rfl⟩
    have paired : (located {} ks).zipWith (fun k s => (⟨k.token, s⟩ : SpannedToken))
        (spansFrom 0 (texts ks)) = spanned 0 ks := by
      rw [spanned, ← map_token_located {} ks, List.zipWith_map_left]
      simp only [map_token_located]
    simp only [tokenize, lexed, cut h, paired, Option.bind_eq_bind, Option.bind_some, Option.pure_def]
  constructor
  · intro h
    obtain ⟨ls, lexed, -⟩ := Option.bind_eq_some_iff.1 h
    obtain ⟨ks, lexes, rfl⟩ := tokens?_eq_some_iff.1 lexed
    exact ⟨ks, lexes, Option.some.inj (h.symm.trans (whole lexes))⟩
  · rintro ⟨ks, h, rfl⟩
    exact whole h

end
end Layout
end HostSql
