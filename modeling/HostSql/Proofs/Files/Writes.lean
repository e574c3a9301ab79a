import HostSql.Files.Workspace

/-! What a write does to a tree. The file that it goes to gets the new content; everything else lies
where it lay, with the content that it had. So a write leads no path elsewhere, the other files read
as before, and writes to different files can be exchanged. -/
namespace HostSql

namespace Tree
variable {name other : Text} {change change' : Tree → Tree} {es : Entries} {t : Tree}
  {new new' : ByteArray} {place place' : List Text}

/-- The content of a file; a directory has none. -/
def content? : Tree → Option ByteArray
  | file content => some content
  | directory _ => none

/-- What lies at a place: nothing, a directory, or a file with its content. -/
def look (t : Tree) (place : List Text) : Option (Option ByteArray) := (t.find? place).map content?

theorem lookup_changeEntry (name other : Text) (change : Tree → Tree) (es : Entries) :
    (changeEntry name change es).lookup other =
      if other = name then (es.lookup name).map change else es.lookup other := by
  induction es with
  | nil => simp [changeEntry]
  | cons e es ih =>
    obtain ⟨n, t⟩ := e
    rw [changeEntry]
    by_cases here : name = n
    · subst here
      by_cases same : other = name
      · simp [same]
      · have differs : (other == name) = false := beq_eq_false_iff_ne.2 same
        simp [same, differs, List.lookup_cons]
    · rw [if_neg here, List.lookup_cons, List.lookup_cons, List.lookup_cons, ih]
      by_cases same : other = name
      · subst same
        have differs : (other == n) = false := beq_eq_false_iff_ne.2 here
        simp [differs]
      · simp [same]

/-- A write changes the content of the file at its place, and nothing else. -/
theorem look_write (new : ByteArray) (t : Tree) (place place' : List Text) :
    (write new place t).look place' =
      if place' = place then (t.look place).map (·.map fun _ => new) else t.look place' := by
  induction place generalizing t place' with
  | nil =>
    cases t with
    | file content => cases place' <;> rfl
    | directory es =>
      by_cases root : place' = []
      · subst root
        rfl
      · rw [if_neg root, write]
  | cons name names ih =>
    cases t with
    | file content =>
      by_cases same : place' = name :: names
      · rw [if_pos same, same]
        rfl
      · rw [if_neg same, write]
    | directory es =>
      cases place' with
      | nil => rfl
      | cons n ns =>
        simp only [look, write, find?, lookup_changeEntry] at ih ⊢
        by_cases here : n = name
        · subst here
          cases hl : es.lookup n with
          | none => simp
          | some u => simpa using ih u ns
        · simp [here]

theorem changeEntry_comm (h : name = other → ∀ t, change (change' t) = change' (change t)) :
    changeEntry name change (changeEntry other change' es) =
      changeEntry other change' (changeEntry name change es) := by
  induction es with
  | nil => rfl
  | cons e es ih =>
    obtain ⟨n, t⟩ := e
    by_cases here : name = n
    · by_cases there : other = n
      · simp [changeEntry, here, there, h (here.trans there.symm)]
      · simp [changeEntry, here, there]
    · by_cases there : other = n
      · simp [changeEntry, here, there]
      · simp [changeEntry, here, there, ih]

/-- Writes to different places can be exchanged. -/
theorem write_comm (apart : place ≠ place') (t : Tree) :
    write new place (write new' place' t) = write new' place' (write new place t) := by
  induction place generalizing place' t with
  | nil =>
    cases place' with
    | nil => exact absurd rfl apart
    | cons => cases t <;> rfl
  | cons name names ih =>
    cases t with
    | file content => cases place' <;> rfl
    | directory es =>
      cases place' with
      | nil => rfl
      | cons name' names' =>
        simp only [write]
        rw [changeEntry_comm]
        rintro rfl t
        refine ih (fun same => apart ?_) t
        rw [same]

end Tree

namespace Workspace
variable {w w' : Workspace} {p q : Path} {t u : Text} {place : List Text}

/-- What lies at a place of the tree. -/
def look (w : Workspace) (place : List Text) : Option (Option ByteArray) := w.tree.look place

/-- Paths that do not name the same place. -/
def Apart (w : Workspace) (p q : Path) : Prop :=
  ∀ place, w.place? p = some place → w.place? q ≠ some place

theorem Apart.symm (h : w.Apart p q) : w.Apart q p := fun place hq hp => h place hp hq

/-- Directories, files and nothing lie at the same places in both. -/
def SameShape (w w' : Workspace) : Prop :=
  w'.directory = w.directory ∧
    ∀ place, (w'.look place).map Option.isSome = (w.look place).map Option.isSome

theorem SameShape.trans {w'' : Workspace} (h : SameShape w w') (h' : SameShape w' w'') :
    SameShape w w'' :=
  ⟨h'.1.trans h.1, fun place => (h'.2 place).trans (h.2 place)⟩

theorem step_eq (t : Tree) (place : List Text) (piece : Text) :
    step t place piece =
      if (t.look place).map Option.isSome = some false then
        if Path.isVoid piece then some place
        else if piece == ['.', '.'] then some place.dropLast
        else some (place ++ [piece])
      else none := by
  unfold step Tree.look
  cases h : t.find? place with
  | none => rfl
  | some x => cases x <;> simp [Tree.content?]

/-- A path leads to the same place. -/
theorem SameShape.place? (h : SameShape w w') (p : Path) : w'.place? p = w.place? p := by
  obtain ⟨directory, shape⟩ := h
  have steps : step w'.tree = step w.tree := by
    funext place piece
    have same := shape place
    unfold look at same
    rw [step_eq, step_eq, same]
  have stands (place : List Text) : (w'.tree.find? place).isSome = (w.tree.find? place).isSome := by
    have same := congrArg Option.isSome (shape place)
    simpa [look, Tree.look] using same
  unfold Workspace.place?
  rw [steps, directory]
  simp only [stands]

theorem SameShape.apart (h : SameShape w w') (apart : w.Apart p q) : w'.Apart p q := by
  unfold Apart
  rw [h.place? p, h.place? q]
  exact apart

theorem write_nowhere (h : w.place? p = none) (t : Text) : w.write p t = w := by
  rw [write, h]

theorem write_at (h : w.place? p = some place) (t : Text) :
    w.write p t = { w with tree := w.tree.write (String.ofList t).toUTF8 place } := by
  rw [write, h]

/-- The file that a path names has the new text; all else is as it was. -/
theorem look_write (w : Workspace) (p : Path) (t : Text) (place : List Text) :
    (w.write p t).look place =
      if w.place? p = some place then
        (w.look place).map (·.map fun _ => (String.ofList t).toUTF8)
      else w.look place := by
  cases h : w.place? p with
  | none => rw [write_nowhere h, if_neg (by simp)]
  | some written =>
    rw [write_at h, look, Tree.look_write]
    by_cases here : place = written
    · rw [if_pos here, if_pos (by rw [here]), here]
      rfl
    · rw [if_neg here, if_neg (by simpa using Ne.symm here)]
      rfl

theorem sameShape_write (w : Workspace) (p : Path) (t : Text) : SameShape w (w.write p t) := by
  refine ⟨by unfold write; split <;> rfl, fun place => ?_⟩
  rw [look_write]
  split
  · cases w.look place with
    | none => rfl
    | some x => cases x <;> rfl
  · rfl

theorem read_eq (w : Workspace) (p : Path) :
    w.read p =
      match (w.place? p).bind w.look with
      | none => .error .missing
      | some none => .error .isDirectory
      | some (some content) =>
        match String.fromUTF8? content with
        | some s => .ok s.toList
        | none => .error .notUtf8 := by
  unfold read find?
  cases w.place? p with
  | none => rfl
  | some place =>
    simp only [Option.bind_some, look, Tree.look]
    cases w.tree.find? place with
    | none => rfl
    | some x => cases x <;> rfl

theorem fromUTF8?_eq_some_iff {content : ByteArray} {s : String} :
    String.fromUTF8? content = some s ↔ content = s.toUTF8 := by
  unfold String.fromUTF8?
  constructor
  · intro h
    split at h
    · cases h
      rfl
    · cases h
  · rintro rfl
    rw [String.toUTF8_eq_toByteArray, dif_pos s.isValidUTF8]
    rfl

/-- Different texts have different contents. -/
theorem content_inj (h : (String.ofList t).toUTF8 = (String.ofList u).toUTF8) : t = u := by
  have same := (fromUTF8?_eq_some_iff.2 h).symm.trans (fromUTF8?_eq_some_iff.2 rfl)
  exact (String.ofList_injective (Option.some.inj same)).symm

/-- A text is read off the bytes that encode it. -/
theorem read_eq_ok_iff :
    w.read p = .ok t ↔
      ∃ place, w.place? p = some place ∧ w.look place = some (some (String.ofList t).toUTF8) := by
  rw [read_eq]
  cases w.place? p with
  | none => simp
  | some place =>
    simp only [Option.bind_some, Option.some.injEq, exists_eq_left']
    split
    · next none => simp [none]
    · next directory => simp [directory]
    · next content file =>
      rw [file, Option.some.injEq, Option.some.injEq, ← fromUTF8?_eq_some_iff]
      cases String.fromUTF8? content with
      | none => simp
      | some s =>
        simp only [Except.ok.injEq, Option.some.injEq]
        constructor
        · rintro rfl
          exact String.ofList_toList.symm
        · rintro rfl
          exact String.toList_ofList

/-- Other files read as before. -/
theorem read_write (apart : w.Apart p q) (t : Text) : (w.write p t).read q = w.read q := by
  rw [read_eq, read_eq, (sameShape_write w p t).place? q]
  cases hq : w.place? q with
  | none => rfl
  | some place =>
    simp only [Option.bind_some]
    rw [look_write, if_neg fun hp => apart place hp hq]

/-- Writes to different files can be exchanged. -/
theorem write_comm (apart : w.Apart p q) (t u : Text) :
    (w.write p t).write q u = (w.write q u).write p t := by
  have p' := (sameShape_write w q u).place? p
  have q' := (sameShape_write w p t).place? q
  cases hp : w.place? p with
  | none => rw [write_nowhere hp, write_nowhere (p'.trans hp)]
  | some place =>
    cases hq : w.place? q with
    | none => rw [write_nowhere hq, write_nowhere (q'.trans hq)]
    | some place' =>
      have differs : place' ≠ place := by
        rintro rfl
        exact apart place' hp hq
      rw [write_at (q'.trans hq), write_at (p'.trans hp), write_at hp, write_at hq,
        Tree.write_comm differs]

end Workspace
end HostSql
