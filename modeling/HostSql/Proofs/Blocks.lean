import HostSql.Proofs.Host.Shape
import HostSql.Proofs.Transform

/-! Blocks have no delimiters: where one ends is read off its own lines. A text that takes the place of
a block is found again as that block exactly when it holds something and no line of it is a marker. -/
namespace HostSql
open Splice

def Fragment.isBlock (f : Fragment) : Bool := f.kind == .block

/-- What the blocks of a text hold, in their order. -/
def blocks (l : Locator) (t : Text) : List Text :=
  ((l.locate t).filter Fragment.isBlock).map Fragment.raw

/-- What stands for the blocks of a buffer in the end: their replacements, and their own text for those
that have none. -/
def standingBlocks (format : Formatter) (c : Config) (buffer : Text) : List Text :=
  (((Locator.ofConfig c).locate buffer).filter Fragment.isBlock).map (standing format c buffer)

/-- No replacement of a block is empty or holds a line that is the marker. -/
def KeepsBlocks (format : Formatter) (c : Config) (buffer : Text) : Prop :=
  ∀ f ∈ (Locator.ofConfig c).locate buffer, f.kind = .block →
    ∀ new, replacement format c buffer f = .ok new →
      new ≠ [] ∧ ∀ line ∈ new.lines, line.trim ≠ (Locator.ofConfig c).marker

section
variable {format : Formatter} {c : Config} {buffer : Text} {l : Locator}

theorem raw_of_isBlock {f : Fragment} (shaped : Shaped l f) (block : f.isBlock = true) :
    f.raw = f.text ∧ ∀ y ∈ f.raw.lines, l.continuesBlock y = true := by
  cases shaped with
  | literal => cases block
  | block n body => exact ⟨rfl, body⟩

/-- Lines that can be found as a block hold something, and none of them is the marker. -/
theorem block_of_mem {x : Text} (h : x ∈ blocks l buffer) (some : l.marker ≠ []) :
    x ≠ [] ∧ ∀ line ∈ x.lines, line.trim ≠ l.marker := by
  obtain ⟨f, hf, rfl⟩ := List.mem_map.1 h
  obtain ⟨located, block⟩ := List.mem_filter.1 hf
  obtain ⟨-, body⟩ := raw_of_isBlock (Locator.shaped_of_locate located) block
  exact ⟨Locator.ne_nil_of_continues body, fun line hl => Locator.trim_ne_marker (body line hl) some⟩

/-- The blocks among fragments that have moved are those of before, each with its new text. -/
theorem blocks_of_moved {put : Fragment → Text} {n n' : Nat} {t t' : Text} {fs fs' : List Fragment}
    (h : Moved put n t fs n' t' fs') (shaped : ∀ f ∈ fs', Shaped l f) :
    (fs'.filter Fragment.isBlock).map Fragment.raw = (fs.filter Fragment.isBlock).map put := by
  induction h with
  | rest => rfl
  | @next n n' t t' f f' fs fs' gap _ _ same text _ ih =>
    obtain ⟨first, others⟩ := List.forall_mem_cons.1 shaped
    have kind : f'.isBlock = f.isBlock := by rw [Fragment.isBlock, same.1, Fragment.isBlock]
    by_cases block : f.isBlock = true
    · have raw : f'.raw = put f := by
        rw [(raw_of_isBlock first (kind.trans block)).1, text]
      rw [List.filter_cons_of_pos (kind.trans block), List.filter_cons_of_pos block, List.map_cons,
        List.map_cons, raw, ih others]
    · rw [List.filter_cons_of_neg (by rwa [kind]), List.filter_cons_of_neg block, ih others]

/-- With plain names and markers a pass keeps the blocks of a buffer, each with what stands for it in
the end, exactly when every replacement of a block can be found again as a block. -/
theorem blocks_transform_of_plain (valid : c.fault? = none) (plain : (Locator.ofConfig c).Plain) :
    blocks (Locator.ofConfig c) (transform format c buffer).text =
        standingBlocks format c buffer ↔ KeepsBlocks format c buffer := by
  constructor
  · intro same f located block new replaced
    have stands : standing format c buffer f = new := by rw [standing, replaced]
    have mem : new ∈ standingBlocks format c buffer := by
      rw [← stands]
      apply List.mem_map_of_mem
      exact List.mem_filter.2 ⟨located, by simp [Fragment.isBlock, block]⟩
    exact block_of_mem (same ▸ mem) plain.marker_ne_nil
  · intro keeps
    rw [KeepsBlocks] at keeps
    obtain ⟨moved, -⟩ := transform_spec valid plain keeps
    exact blocks_of_moved moved fun f hf => Locator.shaped_of_locate hf

/-- With the default name and marker, whatever the formatter does and the other settings are: locating
in the text that a pass leaves finds exactly the blocks of the buffer, the k-th one with the k-th
replacement, unless one of these replacements is empty or has the marker among its lines. -/
theorem blocks_transform_iff (valid : c.fault? = none) (name : c.callName = "sql")
    (marker : c.magicMarker = "%%sql") :
    blocks (Locator.ofConfig c) (transform format c buffer).text =
        standingBlocks format c buffer ↔ KeepsBlocks format c buffer := by
  apply blocks_transform_of_plain valid
  rw [ofConfig_default name marker]
  exact plain_default

end

/-- Two blocks, the marker of the second one ending the first one. -/
def adjacent : Text := "%%sql\nselect 1 from t\n%%sql\nselect 2\n".toList

/-- The first block comes out on two lines, and both blocks are found again. -/
theorem blocks_transform_adjacent :
    blocks (Locator.ofConfig {}) (transform Formatter.clauses {} adjacent).text =
      ["SELECT 1\nFROM t".toList, "SELECT 2".toList] := by
  have located : (Locator.ofConfig {}).locate adjacent =
      [.ofBlock 6 "select 1 from t".toList, .ofBlock 28 "select 2".toList] := by
        with_unfolding_all decide
  have first : replacement Formatter.clauses {} adjacent (.ofBlock 6 "select 1 from t".toList) =
      .ok "SELECT 1\nFROM t".toList := by with_unfolding_all decide
  have second : replacement Formatter.clauses {} adjacent (.ofBlock 28 "select 2".toList) =
      .ok "SELECT 2".toList := by with_unfolding_all decide
  have keeps : KeepsBlocks Formatter.clauses {} adjacent := by
    intro f hf _ new replaced
    rw [located] at hf
    rw [ofConfig_default rfl rfl]
    rcases List.mem_cons.1 hf with rfl | hf
    · cases first.symm.trans replaced
      decide
    · cases List.mem_singleton.1 hf
      cases second.symm.trans replaced
      decide
  rw [(blocks_transform_iff (by decide) rfl rfl).2 keeps, standingBlocks, located]
  have blocks : [Fragment.ofBlock 6 "select 1 from t".toList,
      .ofBlock 28 "select 2".toList].filter Fragment.isBlock =
        [.ofBlock 6 "select 1 from t".toList, .ofBlock 28 "select 2".toList] := by rfl
  rw [blocks, List.map_cons, List.map_cons, List.map_nil, standing, standing, first, second]

/-- A block and, behind a blank line, host code. -/
def followed : Text := "%%sql\nselect 1\n\nx = 1\n".toList

theorem transform_followed :
    transform (.constant []) {} followed =
      { text := "%%sql\n\n\nx = 1\n".toList, changed := true, candidates := 1, replaced := 1 } := by
  with_unfolding_all decide

/-- A formatter that leaves nothing of the block leaves its marker to the code behind it, which is now
found as the block. -/
theorem blocks_transform_followed :
    ({} : Config).fault? = none ∧
      (transform (.constant []) {} followed).changed = true ∧
      standingBlocks (.constant []) {} followed = [[]] ∧
      blocks (Locator.ofConfig {}) (transform (.constant []) {} followed).text =
        ["x = 1".toList] := by
  rw [transform_followed]
  with_unfolding_all decide

end HostSql
