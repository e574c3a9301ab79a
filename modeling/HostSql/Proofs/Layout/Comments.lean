import HostSql.Layout.Comments
import HostSql.Proofs.Layout.Tokens
import HostSql.Proofs.Sql.Comments
import Mathlib.Data.List.Chain

/-! Line comments as block comments. Read again, the text has the tokens that are meant, if no comment
opens another one and no token goes on with the slash that is put behind it. -/
namespace HostSql.Layout
open Sql Sql.Lexer

/-- What follows the sign of a line comment. -/
def comment? (k : Token) : Option Text :=
  match k.kind with
  | .lineComment sign => some (k.text.drop sign)
  | _ => none

def lineBreak : Token := ⟨.blank, ['\n']⟩

/-- What stands for a token: a block comment for a line comment, and the line break behind it. -/
def inlinedTokens (k : Token) : List Token :=
  match comment? k with
  | some t => ⟨.blockComment, blockComment t.trim⟩ :: if t.getLast? = some '\n' then [lineBreak] else []
  | none => [k]

/-- The text that stands for tokens. -/
def inlinedText (ks : List Token) : Text := (texts (ks.flatMap inlinedTokens)).flatten

/-- No line comment closes a block comment. -/
def Closed (ks : List Token) : Prop :=
  ∀ k ∈ ks, ∀ t ∈ comment? k, Text.occursIn ['*', '/'] t.trim = false

/-- No line comment opens a block comment, and no token directly before one goes on with a slash. -/
structure Inlinable (d : Dialect) (ks : List Token) : Prop where
  bodies : ∀ k ∈ ks, ∀ t ∈ comment? k, Text.occursIn ['/', '*'] t.trim = false
  apart : ks.IsChain fun k k' => (comment? k').isSome → joinsSlash d k.text = false

section
variable {d : Dialect} {c : Char} {t w s body : Text} {kind : TokenKind} {k : Token} {ks : List Token} {n : Nat}

theorem inlinable_cons_iff : Inlinable d (k :: ks) ↔
    (∀ t ∈ comment? k, Text.occursIn ['/', '*'] t.trim = false) ∧
      (∀ k' ∈ ks.head?, (comment? k').isSome → joinsSlash d k.text = false) ∧ Inlinable d ks := by
  constructor
  · rintro ⟨bodies, apart⟩
    obtain ⟨next, rest⟩ := List.isChain_cons.1 apart
    exact ⟨bodies k List.mem_cons_self, next, fun k' mem => bodies k' (List.mem_cons_of_mem k mem), rest⟩
  · rintro ⟨here, next, bodies, apart⟩
    refine ⟨fun k' mem => ?_, List.isChain_cons.2 ⟨next, apart⟩⟩
    rcases List.mem_cons.1 mem with rfl | later
    · exact here
    · exact bodies k' later

theorem inlinedText_cons (k : Token) (ks : List Token) :
    inlinedText (k :: ks) = (texts (inlinedTokens k)).flatten ++ inlinedText ks := by
  rw [inlinedText, List.flatMap_cons, texts_append, List.flatten_append, inlinedText]

/-- A token is read off the front exactly if the rest is read behind it. -/
theorem lexes_cons_iff : Lexes d (c :: (w ++ s)) (⟨kind, c :: w⟩ :: ks) ↔
    (∃ n, first d c (w ++ s) = some (kind, n) ∧ (w ++ s).take n = w) ∧ Lexes d s ks := by
  have rest {n : Nat} (front : (w ++ s).take n = w) : (w ++ s).drop n = s := by
    have whole := List.take_append_drop n (w ++ s)
    rw [front] at whole
    exact List.append_cancel_left whole
  constructor
  · intro h
    generalize whole : c :: (w ++ s) = t at h
    generalize head : (⟨kind, c :: w⟩ : Token) = k at h
    cases h with
    | cons token more =>
      cases whole
      injection head with sameKind sameText
      have front := (List.cons.inj sameText).2.symm
      rw [rest front] at more
      exact ⟨⟨_, sameKind ▸ token, front⟩, more⟩
  · rintro ⟨⟨n, token, front⟩, more⟩
    have h := Lexes.cons token ((rest front).symm ▸ more)
    rwa [front] at h

theorem comment?_eq_some (h : comment? k = some t) : ∃ m, k.kind = .lineComment m := by
  unfold comment? at h
  split at h
  · next m kind => exact ⟨m, kind⟩
  · cases h

theorem inlinedTokens_code (h : comment? k = none) : inlinedTokens k = [k] := by
  rw [inlinedTokens, h]

theorem comment?_inlinedTokens {k' : Token} (h : k' ∈ inlinedTokens k) : comment? k' = none := by
  rw [inlinedTokens] at h
  cases comment : comment? k with
  | none =>
    rw [comment] at h
    rw [List.mem_singleton.1 h, comment]
  | some t =>
    rw [comment] at h
    rcases List.mem_cons.1 h with rfl | h
    · rfl
    · split at h
      · rw [List.mem_singleton.1 h]
        rfl
      · cases h

/-- Only blanks and comments are put in the place of a comment. -/
theorem filter_inlinedTokens (ks : List Token) :
    (ks.flatMap inlinedTokens).filter (!·.isSpace) = ks.filter (!·.isSpace) := by
  induction ks with
  | nil => rfl
  | cons k ks ih =>
    rw [List.flatMap_cons, List.filter_append, ih, List.filter_cons, inlinedTokens]
    cases comment : comment? k with
    | none =>
      dsimp only
      rw [List.filter_cons, List.filter_nil]
      split <;> rfl
    | some t =>
      obtain ⟨m, kind⟩ := comment?_eq_some comment
      have space : k.isSpace = true := by rw [Token.isSpace, kind]
      dsimp only
      rw [space]
      split <;> rfl

/-- A block comment starts with its sign and ends with a blank and its sign. -/
theorem exists_blockComment (body : Text) :
    ∃ inside, blockComment body = '/' :: '*' :: (inside ++ [' ', '*', '/']) ∧
      ∀ a b, a ≠ ' ' → Text.occursIn [a, b] (' ' :: inside) = Text.occursIn [a, b] body := by
  have blank (a b : Char) (ha : a ≠ ' ') (t : Text) : Text.occursIn [a, b] (' ' :: t) = Text.occursIn [a, b] t := by
    cases t with
    | nil => rw [occursIn_pair_single]; rfl
    | cons c t => simp [occursIn_pair, ha]
  cases body with
  | nil => exact ⟨[], rfl, fun a b ha => blank a b ha []⟩
  | cons c body =>
    exact ⟨' ' :: c :: body, rfl, fun a b ha => (blank a b ha _).trans (blank a b ha _)⟩

/-- The block comment is read as a whole exactly if it opens no other one. -/
theorem lexes_blockComment_iff (closed : Text.occursIn ['*', '/'] body = false) :
    Lexes d (blockComment body ++ s) (⟨.blockComment, blockComment body⟩ :: ks) ↔
      Text.occursIn ['/', '*'] body = false ∧ Lexes d s ks := by
  obtain ⟨inside, whole, occurs⟩ := exists_blockComment body
  have ends : blockCommentEnd 0 ' ' (inside ++ ' ' :: '*' :: '/' :: s) = some (inside.length + 3) ↔
      0 = 0 ∧ Text.occursIn ['/', '*'] (' ' :: inside) = false :=
    blockCommentEnd_body (by rw [occurs _ _ (by decide), closed]) s
  rw [occurs _ _ (by decide)] at ends
  have read : (∃ n, first d '/' ('*' :: (inside ++ [' ', '*', '/']) ++ s) = some (.blockComment, n) ∧
      ('*' :: (inside ++ [' ', '*', '/']) ++ s).take n = '*' :: (inside ++ [' ', '*', '/'])) ↔
        blockCommentEnd 0 ' ' (inside ++ ' ' :: '*' :: '/' :: s) = some (inside.length + 3) := by
    have shape : '*' :: (inside ++ [' ', '*', '/']) ++ s = '*' :: (inside ++ ' ' :: '*' :: '/' :: s) := by
      simp
    rw [shape, first_blockComment]
    constructor
    · rintro ⟨n, token, front⟩
      obtain ⟨k, hk, same⟩ := Option.map_eq_some_iff.1 token
      cases same
      have le := (closes_blockCommentEnd hk).ends.last.2
      have length := congrArg List.length front
      rw [List.length_take] at length
      simp only [List.length_cons, List.length_append, List.length_nil] at length le
      rw [hk, Option.some.injEq]
      omega
    · intro hk
      refine ⟨inside.length + 3 + 1, by rw [hk]; rfl, ?_⟩
      rw [← shape, List.take_left' (by simp)]
  rw [whole, List.cons_append, lexes_cons_iff, read, ends]
  simp

theorem lexes_lineBreak_iff : Lexes d ('\n' :: s) (lineBreak :: ks) ↔ Lexes d s ks := by
  have token : ∃ n, first d '\n' ([] ++ s) = some (.blank, n) ∧ ([] ++ s).take n = [] := ⟨0, rfl, rfl⟩
  have cut : Lexes d ('\n' :: ([] ++ s)) (⟨.blank, ['\n']⟩ :: ks) ↔ _ := lexes_cons_iff
  exact cut.trans (and_iff_right token)

theorem exists_inlinedText_cons (h : comment? k = some t) (ks : List Token) :
    ∃ z, inlinedText (k :: ks) = '/' :: z := by
  obtain ⟨inside, whole, -⟩ := exists_blockComment t.trim
  rw [inlinedText_cons, inlinedTokens, h]
  dsimp only
  rw [texts_cons, List.flatten_cons, whole]
  exact ⟨_, rfl⟩

/-- Up to the first line comment the text stays, and there a slash stands for its sign. -/
theorem inlinedText_cases (h : Lexes d t ks) : inlinedText ks = t ∨
    ∃ v y z, t = v ++ y ∧ OpensComment d y ∧ inlinedText ks = v ++ '/' :: z ∧
      (v = [] → ∃ k ∈ ks.head?, (comment? k).isSome) := by
  induction h with
  | nil => exact .inl rfl
  | @cons c t kind n ks token more ih =>
    cases comment : comment? ⟨kind, c :: t.take n⟩ with
    | some body =>
      obtain ⟨m, rfl⟩ := comment?_eq_some comment
      obtain ⟨z, hz⟩ := exists_inlinedText_cons comment ks
      exact .inr ⟨[], c :: t, z, rfl, opensComment_of_first token, hz, fun _ => ⟨_, rfl, by rw [comment]; rfl⟩⟩
    | none =>
      rw [inlinedText_cons, inlinedTokens_code comment, texts_cons, texts_nil, List.flatten_singleton]
      rcases ih with same | ⟨v, y, z, cut, opens, same, -⟩
      · left
        rw [same, List.cons_append, List.take_append_drop]
      · refine .inr ⟨c :: t.take n ++ v, y, z, ?_, opens, by rw [same, List.append_assoc], nofun⟩
        rw [List.append_assoc, ← cut, List.cons_append, List.take_append_drop]

/-- What a line comment covers goes on with no slash. -/
theorem joinsSlash_lineComment {m : Nat} (token : first d c t = some (.lineComment m, n)) :
    joinsSlash d (c :: t.take n) = false := by
  cases opensComment_of_first token with
  | dashes z => simp [joinsSlash]
  | hash => simp [joinsSlash]
  | slashes z has =>
    rw [first_slashes, if_pos has] at token
    cases token
    rw [Nat.add_comm, List.take_succ_cons]
    simp [joinsSlash]

/-- A token that is no line comment is read before the new text exactly if it does not go on with a slash
that is put directly behind it. -/
theorem first_inlinedText_iff (token : first d c t = some (kind, n)) (more : Lexes d (t.drop n) ks)
    (code : ∀ m, kind ≠ .lineComment m) :
    (∃ n', first d c (t.take n ++ inlinedText ks) = some (kind, n') ∧
      (t.take n ++ inlinedText ks).take n' = t.take n) ↔
      ∀ k' ∈ ks.head?, (comment? k').isSome → joinsSlash d (c :: t.take n) = false := by
  constructor
  · rintro ⟨n', again, front⟩ k' first comment
    obtain ⟨rest, rfl⟩ := List.head?_eq_some_iff.1 first
    obtain ⟨body, comment⟩ := Option.isSome_iff_exists.1 comment
    obtain ⟨z, hz⟩ := exists_inlinedText_cons comment rest
    rw [hz] at again front
    rw [Bool.eq_false_iff]
    intro joins
    have longer := lt_of_joinsSlash joins again
    have length := congrArg List.length front
    rw [List.length_take, List.length_append, List.length_cons] at length
    omega
  · intro free
    rcases inlinedText_cases more with same | ⟨v, y, z, cut, opens, same, comment⟩
    · rw [same, List.take_append_drop]
      exact ⟨n, token, rfl⟩
    · have whole : t = (t.take n ++ v) ++ y := by rw [List.append_assoc, ← cut, List.take_append_drop]
      have front : (t.take n).length = n := by
        obtain ⟨e, y, rfl, -⟩ := opens.head
        have length := congrArg List.length cut
        rw [List.length_drop, List.length_append, List.length_cons] at length
        rw [List.length_take]
        omega
      refine ⟨n, ?_, ?_⟩
      · rw [same, ← List.append_assoc]
        rw [whole] at token
        refine first_exchange opens token code ?_ (fun all => ?_) z
        · rw [List.length_append]
          omega
        · rw [List.length_append] at all
          have empty : v = [] := List.eq_nil_of_length_eq_zero (by omega)
          obtain ⟨k', first, comment⟩ := comment empty
          rw [empty, List.append_nil]
          exact free k' first comment
      · rw [List.take_left' front]

/-- The new text has the tokens that stand for those of the text exactly if the text is inlinable. -/
theorem lexes_inlinedText_iff (h : Lexes d t ks)
    (closed : Closed ks) :
    Lexes d (inlinedText ks) (ks.flatMap inlinedTokens) ↔ Inlinable d ks := by
  induction h with
  | nil => exact ⟨fun _ => ⟨nofun, .nil⟩, fun _ => .nil⟩
  | @cons c t kind n ks token more ih =>
    have ih := ih fun k mem => closed k (List.mem_cons_of_mem _ mem)
    rw [inlinable_cons_iff, inlinedText_cons, List.flatMap_cons, ← ih]
    cases comment : comment? ⟨kind, c :: t.take n⟩ with
    | none =>
      have code (m : Nat) : kind ≠ .lineComment m := by
        rintro rfl
        cases comment
      rw [inlinedTokens_code comment, texts_cons, texts_nil, List.flatten_singleton, List.cons_append,
        List.singleton_append, lexes_cons_iff, first_inlinedText_iff token more code]
      exact (and_iff_right nofun).symm
    | some x =>
      obtain ⟨m, rfl⟩ := comment?_eq_some comment
      have closed := closed _ List.mem_cons_self x comment
      have apart := joinsSlash_lineComment token
      have behind (s : Text) (ks : List Token) : Lexes d
          ((texts (if x.getLast? = some '\n' then [lineBreak] else [])).flatten ++ s)
          ((if x.getLast? = some '\n' then [lineBreak] else []) ++ ks) ↔ Lexes d s ks := by
        split
        · exact lexes_lineBreak_iff
        · exact Iff.rfl
      rw [inlinedTokens, comment]
      dsimp only
      rw [texts_cons, List.flatten_cons, List.append_assoc, List.cons_append,
        lexes_blockComment_iff closed, behind]
      simp [apart]

theorem inlined_code (h : comment? k = none) : inlined k = some k.text := by
  obtain ⟨kind, text⟩ := k
  cases kind with
  | lineComment sign => cases h
  | _ => rfl

theorem inlined_comment (h : comment? k = some t) : inlined k =
    if Text.occursIn ['*', '/'] t.trim then none else some (texts (inlinedTokens k)).flatten := by
  obtain ⟨kind, text⟩ := k
  obtain ⟨m, rfl⟩ := comment?_eq_some h
  cases h
  rw [inlined, inlinedTokens]
  dsimp only [comment?]
  congr 2
  rw [texts_cons, List.flatten_cons]
  split <;> rfl

theorem inlined_eq_some_iff {x : Text} : inlined k = some x ↔
    (∀ t ∈ comment? k, Text.occursIn ['*', '/'] t.trim = false) ∧ x = (texts (inlinedTokens k)).flatten := by
  cases comment : comment? k with
  | none =>
    rw [inlined_code comment, inlinedTokens_code comment, texts_cons, texts_nil, List.flatten_singleton]
    constructor
    · intro h
      exact ⟨nofun, (Option.some.inj h).symm⟩
    · rintro ⟨-, rfl⟩
      rfl
  | some t =>
    rw [inlined_comment comment]
    constructor
    · intro h
      split at h
      · cases h
      · next closed =>
        refine ⟨fun t' mem => ?_, (Option.some.inj h).symm⟩
        cases mem
        exact Bool.eq_false_iff.2 closed
    · rintro ⟨closed, rfl⟩
      rw [closed t rfl]
      rfl

theorem mapM_inlined_iff {ts : List SpannedToken} {xs : List Text} : ts.mapM (inlined ·.token) = some xs ↔
    Closed (ts.map (·.token)) ∧
      xs = (ts.map (·.token)).map fun k => (texts (inlinedTokens k)).flatten := by
  induction ts generalizing xs with
  | nil =>
    constructor
    · intro h
      cases h
      exact ⟨nofun, rfl⟩
    · rintro ⟨-, rfl⟩
      rfl
  | cons k ts ih =>
    rw [List.mapM_cons]
    constructor
    · intro h
      obtain ⟨x, hx, h⟩ := Option.bind_eq_some_iff.1 h
      obtain ⟨ys, hys, same⟩ := Option.bind_eq_some_iff.1 h
      cases same
      obtain ⟨here, rfl⟩ := inlined_eq_some_iff.1 hx
      obtain ⟨later, rfl⟩ := ih.1 hys
      exact ⟨List.forall_mem_cons.2 ⟨here, later⟩, rfl⟩
    · rintro ⟨closed, rfl⟩
      obtain ⟨here, later⟩ := List.forall_mem_cons.1 closed
      rw [inlined_eq_some_iff.2 ⟨here, rfl⟩, ih.2 ⟨later, rfl⟩]
      rfl

theorem inlineComments_eq_ok_iff {sql out : Text} {ts : List SpannedToken} (tokens : tokenize d sql = some ts) :
    inlineComments d sql = .ok out ↔
      Closed (ts.map (·.token)) ∧ out = inlinedText (ts.map (·.token)) := by
  have whole (ks : List Token) :
      (ks.map fun k => (texts (inlinedTokens k)).flatten).flatten = inlinedText ks := by
    induction ks with
    | nil => rfl
    | cons k ks ih => rw [List.map_cons, List.flatten_cons, ih, inlinedText_cons]
  rw [inlineComments, tokens]
  dsimp only
  cases found : ts.mapM (inlined ·.token) with
  | none =>
    refine ⟨nofun, fun ⟨closed, _⟩ => ?_⟩
    rw [mapM_inlined_iff.2 ⟨closed, rfl⟩] at found
    cases found
  | some xs =>
    obtain ⟨closed, rfl⟩ := mapM_inlined_iff.1 found
    dsimp only
    rw [whole]
    constructor
    · intro h
      cases h
      exact ⟨closed, rfl⟩
    · rintro ⟨-, rfl⟩
      rfl

/-- A text with block comments for its line comments has the tokens that are meant exactly if no comment
opens another one and no token is lengthened. Then nothing is commented out that was not, and no
comment's text becomes SQL. -/
theorem inlineComments_keeps_tokens {sql out : Text} {ts : List SpannedToken}
    (tokens : tokenize d sql = some ts) (inlined : inlineComments d sql = .ok out) :
    ((tokenize d out).map (·.map (·.token)) = some ((ts.map (·.token)).flatMap inlinedTokens) ↔
      Inlinable d (ts.map (·.token))) ∧
    (Inlinable d (ts.map (·.token)) → ∃ ts', tokenize d out = some ts' ∧
      (∀ k ∈ ts', comment? k.token = none) ∧
      (ts'.map (·.token)).filter (!·.isSpace) = (ts.map (·.token)).filter (!·.isSpace)) := by
  obtain ⟨closed, rfl⟩ := (inlineComments_eq_ok_iff tokens).1 inlined
  obtain ⟨ks, lexes, rfl⟩ := tokenize_eq_some_iff.1 tokens
  rw [map_token_spanned] at closed ⊢
  have again := lexes_inlinedText_iff lexes closed
  constructor
  · rw [← again]
    constructor
    · intro h
      obtain ⟨ts', read, same⟩ := Option.map_eq_some_iff.1 h
      obtain ⟨ks', lexes', rfl⟩ := tokenize_eq_some_iff.1 read
      rw [map_token_spanned] at same
      rwa [same] at lexes'
    · intro h
      rw [tokenize_eq_some_iff.2 ⟨_, h, rfl⟩, Option.map_some, map_token_spanned]
  · intro inlinable
    refine ⟨_, tokenize_eq_some_iff.2 ⟨_, again.2 inlinable, rfl⟩, fun k mem => ?_, ?_⟩
    · have mem' := List.mem_map_of_mem mem (f := (·.token))
      rw [map_token_spanned] at mem'
      obtain ⟨k', -, mem'⟩ := List.mem_flatMap.1 mem'
      exact comment?_inlinedTokens mem'
    · rw [map_token_spanned, filter_inlinedTokens]

/-- A comment between two numbers. -/
def notedSum : Text := "1 -- one\n+ 2".toList

theorem inlineComments_keeps_tokens_notedSum :
    ∃ ts ts', tokenize .generic notedSum = some ts ∧
      inlineComments .generic notedSum = .ok "1 /* one */\n+ 2".toList ∧
      tokenize .generic "1 /* one */\n+ 2".toList = some ts' ∧
      (∀ k ∈ ts', comment? k.token = none) ∧
      (ts'.map (·.token)).filter (!·.isSpace) = (ts.map (·.token)).filter (!·.isSpace) := by
  have tokens : tokenize .generic notedSum = some (spanned 0 [
      ⟨.number, "1".toList⟩, ⟨.blank, " ".toList⟩, ⟨.lineComment 2, "-- one\n".toList⟩,
      ⟨.symbol, "+".toList⟩, ⟨.blank, " ".toList⟩, ⟨.number, "2".toList⟩]) := by
    with_unfolding_all decide
  have inlined : inlineComments .generic notedSum = .ok "1 /* one */\n+ 2".toList := by
    with_unfolding_all decide
  have inlinable : Inlinable .generic (List.map (·.token) (spanned 0 [
      ⟨.number, "1".toList⟩, ⟨.blank, " ".toList⟩, ⟨.lineComment 2, "-- one\n".toList⟩,
      ⟨.symbol, "+".toList⟩, ⟨.blank, " ".toList⟩, ⟨.number, "2".toList⟩])) := by
    rw [map_token_spanned]
    exact ⟨by decide, by decide⟩
  obtain ⟨ts', read, code, same⟩ := (inlineComments_keeps_tokens tokens inlined).2 inlinable
  exact ⟨_, ts', tokens, inlined, read, code, same⟩

/-- A comment that names the sign of a block comment has no end any more, and bars before a comment make
its text SQL. -/
theorem inlineComments_loses_tokens :
    (inlineComments .databricks "1 -- a /* b".toList = .ok "1 /* a /* b */".toList ∧
      tokenize .databricks "1 /* a /* b */".toList = none) ∧
    (inlineComments .databricks "1 ||-- b\n2".toList = .ok "1 ||/* b */\n2".toList ∧
      (tokenize .databricks "1 ||/* b */\n2".toList).map (·.map (·.token)) = some [
        ⟨.number, "1".toList⟩, ⟨.blank, " ".toList⟩, ⟨.symbol, "||/".toList⟩, ⟨.symbol, "*".toList⟩,
        ⟨.blank, " ".toList⟩, ⟨.word, "b".toList⟩, ⟨.blank, " ".toList⟩, ⟨.symbol, "*".toList⟩,
        ⟨.symbol, "/".toList⟩, ⟨.blank, "\n".toList⟩, ⟨.number, "2".toList⟩]) := by
  refine ⟨⟨?_, ?_⟩, ?_, ?_⟩
  · with_unfolding_all decide
  · with_unfolding_all decide
  · with_unfolding_all decide
  · with_unfolding_all decide

end
end HostSql.Layout
