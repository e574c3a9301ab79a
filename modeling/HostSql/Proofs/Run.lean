import HostSql.Files.Glob
import HostSql.Proofs.Schedule
import HostSql.Proofs.Transform
import HostSql.Standard

/-! What a run does to a tree and what it reports. Each file is dealt with as if it were the only one:
what is reported of it, and what is written, depends on what it held in the beginning. -/
namespace HostSql

namespace FileStep
variable {format : Formatter} {differ : Diff.Differ} {o o' : RunOptions} {w : Workspace} {p : Path}
  {t : Text}
  {place : List Text} {s : FileStep}

theorem look_apply_written (h : s.written = some t) (there : w.place? s.result.path = some place) :
    (s.apply w).look place = (w.look place).map (·.map fun _ => (String.ofList t).toUTF8) := by
  rw [apply, h]
  dsimp only
  rw [Workspace.look_write, if_pos there]

theorem look_apply_other (h : w.place? s.result.path = some place → s.written = none) :
    (s.apply w).look place = w.look place := by
  unfold apply
  split
  · next t written =>
    rw [Workspace.look_write, if_neg]
    intro there
    rw [h there] at written
    cases written
  · rfl

/-- What a place holds after all steps is what one of them has written there, or what it held. -/
theorem look_applyAll (ss : List FileStep) (w : Workspace)
    (apart : (ss.map (·.result.path)).Pairwise w.Apart) (place : List Text) :
    (∃ s ∈ ss, ∃ t, s.written = some t ∧ w.place? s.result.path = some place ∧
      (ss.foldl apply w).look place = (w.look place).map (·.map fun _ => (String.ofList t).toUTF8)) ∨
    (∀ s ∈ ss, w.place? s.result.path = some place → s.written = none) ∧
      (ss.foldl apply w).look place = w.look place := by
  induction ss generalizing w with
  | nil => exact .inr ⟨nofun, rfl⟩
  | cons s ss ih =>
    rw [List.map_cons, List.pairwise_cons] at apart
    obtain ⟨others, apart⟩ := apart
    have shape := sameShape_apply w s
    rw [List.foldl_cons]
    rcases ih (s.apply w) (apart.imp shape.apart) with ⟨s', hs', t, written, there, looks⟩ | ⟨none, looks⟩
    · rw [shape.place?] at there
      refine .inl ⟨s', List.mem_cons_of_mem _ hs', t, written, there, looks.trans ?_⟩
      rw [look_apply_other]
      intro here
      exact absurd there (others s'.result.path (List.mem_map_of_mem hs') place here)
    · by_cases here : w.place? s.result.path = some place ∧ ∃ t, s.written = some t
      · obtain ⟨there, t, written⟩ := here
        exact .inl ⟨s, List.mem_cons_self, t, written, there,
          looks.trans (look_apply_written written there)⟩
      · have own : w.place? s.result.path = some place → s.written = .none := by
          intro there
          cases written : s.written with
          | none => rfl
          | some t => exact absurd ⟨there, t, written⟩ here
        refine .inr ⟨fun s' hs' there => ?_, looks.trans (look_apply_other own)⟩
        rcases List.mem_cons.1 hs' with rfl | hs'
        · exact own there
        · exact none s' hs' ((shape.place? _).trans there)

/-- What is reported of a file does not depend on how it is dealt with. -/
theorem result_of (config : o'.config = o.config) (p : Path) (r : Except ReadFault Text) :
    (FileStep.of format differ o' p r).result = (FileStep.of format differ o p r).result := by
  unfold of
  rw [config]
  split
  · rfl
  · dsimp only
    split <;> rfl

/-- What is written does neither, if something is to be written at all. -/
theorem written_of (config : o'.config = o.config) (writes : (o.check || o.diff) = false)
    (writes' : (o'.check || o'.diff) = false) (p : Path) (r : Except ReadFault Text) :
    (FileStep.of format differ o' p r).written = (FileStep.of format differ o p r).written := by
  unfold of
  rw [config, writes, writes']
  split
  · rfl
  · dsimp only
    split <;> rfl

theorem written_eq_some_iff (writes : (o.check || o.diff) = false) {r : Except ReadFault Text} :
    (FileStep.of format differ o p r).written = some t ↔
      ∃ source, r = .ok source ∧ (transform format o.config source).changed = true ∧
        t = (transform format o.config source).text := by
  unfold of
  rw [writes]
  cases r with
  | error => exact ⟨nofun, fun ⟨_, h, _⟩ => by cases h⟩
  | ok source =>
    dsimp only
    split
    · next changed =>
      constructor
      · exact fun h => ⟨source, rfl, changed, (Option.some.inj h).symm⟩
      · rintro ⟨_, ⟨⟩, -, rfl⟩
        rfl
    · next same =>
      constructor
      · nofun
      · rintro ⟨_, ⟨⟩, changed, -⟩
        exact absurd changed same

/-- A file is reported as changed if there is something to write, and only then. -/
theorem changed_iff (writes : (o.check || o.diff) = false) {r : Except ReadFault Text} :
    (FileStep.of format differ o p r).result.status = .changed ↔
      ∃ t, (FileStep.of format differ o p r).written = some t := by
  unfold of
  rw [writes]
  cases r with
  | error fault => simp
  | ok source =>
    dsimp only
    cases (transform format o.config source).changed <;> simp

end FileStep

/-- What is reported of a file, by what it holds. -/
structure FileResult.Tells (format : Formatter) (c : Config) (w : Workspace) (x : FileResult) :
    Prop where
  unread : ∀ fault, w.read x.path = .error fault →
    x.status = .failed ("Read error: " ++ fault.message) ∧ x.candidates = 0 ∧ x.replaced = 0
  read : ∀ source, w.read x.path = .ok source →
    x.status = (if (transform format c source).changed then .changed else .unchanged) ∧
      x.candidates = (transform format c source).candidates ∧
      x.replaced = (transform format c source).replaced

/-- The file at a place is reported as changed. It held another text before, and holds what that is
transformed to. -/
def Report.Rewrites (format : Formatter) (c : Config) (w after : Workspace) (r : Report)
    (place : List Text) : Prop :=
  ∃ x ∈ r.results, x.status = .changed ∧ w.place? x.path = some place ∧
    ∃ source, w.read x.path = .ok source ∧
      after.look place = some (some (String.ofList (transform format c source).text).toUTF8) ∧
      after.look place ≠ w.look place

/-- Nothing at the place is reported as changed, and what lies there is what lay there. -/
def Report.Spares (w after : Workspace) (r : Report) (place : List Text) : Prop :=
  (∀ x ∈ r.results, w.place? x.path = some place → x.status ≠ .changed) ∧
    after.look place = w.look place

/-- A run has given this report, and has left these files unless it was only to look. -/
def Outcome.Settles (o : RunOptions) (w after : Workspace) (report : Report) (r : Outcome) : Prop :=
  r.report = report ∧ r.workspace = if o.check || o.diff then w else after

namespace Workspace
variable {format : Formatter} {differ : Diff.Differ} {o o' : RunOptions} {w : Workspace} {ps : List Path}

theorem tells_of (format : Formatter) (differ : Diff.Differ) (o : RunOptions) (w : Workspace)
    (p : Path) :
    (FileStep.of format differ o p (w.read p)).result.Tells format o.config w := by
  constructor
  · intro fault unread
    rw [FileStep.path_of] at unread
    rw [unread]
    exact ⟨rfl, rfl, rfl⟩
  · intro source read
    rw [FileStep.path_of] at read
    rw [read]
    unfold FileStep.of
    dsimp only
    cases changed : (transform format o.config source).changed with
    | true => exact ⟨rfl, rfl, rfl⟩
    | false => exact ⟨rfl, rfl, (replaced_of_not_changed changed).symm⟩

theorem paths_runAtOnce (format : Formatter) (differ : Diff.Differ) (o : RunOptions) (w : Workspace)
    (ps : List Path) :
    (w.runAtOnce format differ o ps).steps.map (·.result.path) = ps := by
  unfold runAtOnce
  rw [List.map_map]
  exact (List.map_congr_left fun p _ => FileStep.path_of format differ o p _).trans (List.map_id ps)

/-- Each step follows from its own file alone. -/
theorem eq_of_mem_runAtOnce {s : FileStep} (h : s ∈ (w.runAtOnce format differ o ps).steps) :
    s = .of format differ o s.result.path (w.read s.result.path) := by
  obtain ⟨p, -, rfl⟩ := List.mem_map.1 h
  rw [FileStep.path_of]

theorem tells_runAtOnce {x : FileResult} (h : x ∈ (w.runAtOnce format differ o ps).report.results) :
    x.Tells format o.config w := by
  obtain ⟨s, hs, rfl⟩ := List.mem_map.1 h
  rw [eq_of_mem_runAtOnce hs]
  exact tells_of format differ o w _

/-- The report and the files do not depend on what else was asked for. -/
theorem settles_runAtOnce (config : o'.config = o.config) (writes : (o.check || o.diff) = false) :
    (w.runAtOnce format differ o' ps).Settles o' w (w.runAtOnce format differ o ps).workspace
      (w.runAtOnce format differ o ps).report := by
  constructor
  · unfold Outcome.report runAtOnce
    simp only [List.map_map]
    congr 1
    exact List.map_congr_left fun p _ => FileStep.result_of config p _
  · unfold runAtOnce
    dsimp only
    generalize w.read = read
    split
    · next quiet =>
      induction ps with
      | nil => rfl
      | cons p ps ih => rw [List.map_cons, List.foldl_cons, FileStep.apply_quiet quiet, ih]
    · next writes' =>
      have same (p : Path) (u : Workspace) :
          (FileStep.of format differ o' p (read p)).apply u =
            (FileStep.of format differ o p (read p)).apply u := by
        unfold FileStep.apply
        rw [FileStep.written_of config writes (by simpa using writes'), FileStep.path_of, FileStep.path_of]
      induction ps generalizing w with
      | nil => rfl
      | cons p ps ih => rw [List.map_cons, List.map_cons, List.foldl_cons, List.foldl_cons, ih, same]

/-- A file is rewritten exactly if it is reported as changed. -/
theorem rewrites_or_spares (writes : (o.check || o.diff) = false) (apart : ps.Pairwise w.Apart)
    (place : List Text) :
    (w.runAtOnce format differ o ps).report.Rewrites format o.config w
        (w.runAtOnce format differ o ps).workspace place ∨
      (w.runAtOnce format differ o ps).report.Spares w (w.runAtOnce format differ o ps).workspace place := by
  have apart' : ((w.runAtOnce format differ o ps).steps.map (·.result.path)).Pairwise w.Apart := by
    rwa [paths_runAtOnce]
  rcases FileStep.look_applyAll _ w apart' place with
    ⟨s, hs, t, written, there, looks⟩ | ⟨none, looks⟩
  · left
    have own := eq_of_mem_runAtOnce hs
    have changed : s.result.status = .changed := by
      rw [own, FileStep.changed_iff writes]
      exact ⟨t, own ▸ written⟩
    rw [own] at written
    obtain ⟨source, read, changes, rfl⟩ := (FileStep.written_eq_some_iff writes).1 written
    obtain ⟨place', there', held⟩ := read_eq_ok_iff.1 read
    obtain rfl : place = place' := Option.some.inj (there.symm.trans there')
    rw [held] at looks
    refine ⟨s.result, List.mem_map_of_mem hs, changed, there, source, read, looks, fun same => ?_⟩
    rw [held] at same
    have content := Option.some.inj (Option.some.inj (looks.symm.trans same))
    exact text_ne_of_changed changes (content_inj content)
  · right
    refine ⟨fun x hx there changed => ?_, looks⟩
    obtain ⟨s, hs, rfl⟩ := List.mem_map.1 hx
    have empty := none s hs there
    rw [eq_of_mem_runAtOnce hs] at changed empty
    obtain ⟨t, written⟩ := (FileStep.changed_iff writes).1 changed
    rw [empty] at written
    cases written

/-- A file that holds no text stays as it is, and is reported as one that cannot be read. -/
theorem spares_not_utf8 (apart : ps.Pairwise w.Apart) (writes : (o.check || o.diff) = false)
    {place : List Text} {content : ByteArray} (held : w.look place = some (some content))
    (broken : String.fromUTF8? content = none) :
    (w.runAtOnce format differ o ps).workspace.look place = some (some content) ∧
      ∀ x ∈ (w.runAtOnce format differ o ps).report.results, w.place? x.path = some place →
        x.status = .failed "Read error: stream did not contain valid UTF-8" := by
  have unread {p : Path} (there : w.place? p = some place) : w.read p = .error .notUtf8 := by
    rw [read_eq, there, Option.bind_some, held]
    dsimp only
    rw [broken]
  constructor
  · rcases rewrites_or_spares writes apart place with ⟨x, -, -, there, source, read, -⟩ | ⟨-, same⟩
    · rw [unread there] at read
      cases read
    · rw [same, held]
  · intro x hx there
    exact ((tells_runAtOnce hx).unread .notUtf8 (unread there)).1

/-- For every formatter, every way to compare texts, every reader of patterns, every tree, all inputs,
patterns and configurations, where no two of the files name the same place: there is one report, and
one state of the files, that every run ends with, whether it takes the files in turn or works on
several at a time in any order; and runs that only look report the same and leave the files alone.
Files that hold no text are among those that stay as they are. -/
theorem run_settles {ε : Type} (format : Formatter) (differ : Diff.Differ)
    (exclusion : Exclusion.Reader ε) (c : Config) (exclude : List Text) (excluded : Exclusion)
    (w : Workspace) (inputs : List Path) (patterns : exclusion exclude = .ok excluded)
    (apart : (w.discover excluded inputs).Pairwise w.Apart) :
    ∃ report after,
      report.results.map (·.path) = w.discover excluded inputs ∧
      (∀ x ∈ report.results, x.Tells format c w) ∧
      (∀ place, report.Rewrites format c w after place ∨ report.Spares w after place) ∧
      (∀ place content, w.look place = some (some content) → String.fromUTF8? content = none →
        after.look place = some (some content) ∧
          ∀ x ∈ report.results, w.place? x.path = some place →
            x.status = .failed "Read error: stream did not contain valid UTF-8") ∧
      ∀ o : RunOptions, o.config = c → o.exclude = exclude →
        (∃ r, w.runWith format differ exclusion o inputs = .ok r ∧ r.Settles o w after report) ∧
        ∀ s, Pool.Runs format differ o (.start w (w.discover excluded inputs)) s → s.Complete →
          s.outcome.Settles o w after report := by
  generalize hps : w.discover excluded inputs = ps at *
  let plain : RunOptions := { config := c, exclude }
  refine ⟨(w.runAtOnce format differ plain ps).report,
    (w.runAtOnce format differ plain ps).workspace, ?_,
    fun x hx => tells_runAtOnce hx, rewrites_or_spares rfl apart,
    fun place content => spares_not_utf8 apart rfl, ?_⟩
  · rw [Outcome.report, List.map_map]
    exact paths_runAtOnce format differ plain w ps
  · intro o config same
    have settles : (w.runAtOnce format differ o ps).Settles o w _ _ :=
      settles_runAtOnce (o := plain) config rfl
    refine ⟨⟨w.runAtOnce format differ o ps, ?_, settles⟩, fun s run complete => ?_⟩
    · unfold runWith
      rw [same, patterns]
      simp only [bind, Except.bind, hps, runInTurn_eq apart, ite_self]
      rfl
    · rw [Pool.outcome_of_runs apart run complete]
      exact settles

/-- A call on a line of its own. -/
def script : Text := "x = sql(\"select 1\")\n".toList

theorem transform_script :
    transform .standard { pretty := false } script =
      { text := "x = sql(\"SELECT 1\")\n".toList, changed := true, candidates := 1, replaced := 1 } := by
  decide +kernel

/-- The script, and a file that holds no text. -/
def project : Workspace :=
  { tree := .directory
      [("a.py".toList, .file (String.ofList script).toUTF8), ("b.py".toList, .file ⟨#[0xff]⟩)]
    directory := [] }

/-- The script is rewritten and the other file is reported, unless the run is only to look. -/
theorem run_settles_project :
    Exclusion.ofPatterns [] = .ok (.ofGlobs []) ∧
    (project.discover (.ofGlobs []) [.ofString "/"]).Pairwise project.Apart ∧
    ∃ report after,
      report.results =
        [⟨.ofString "/a.py", .changed, 1, 1⟩,
          ⟨.ofString "/b.py", .failed "Read error: stream did not contain valid UTF-8", 0, 0⟩] ∧
      after.look ["a.py".toList] = some (some "x = sql(\"SELECT 1\")\n".toUTF8) ∧
      after.look ["b.py".toList] = project.look ["b.py".toList] ∧
      ∀ o : RunOptions, o.config = { pretty := false } → o.exclude = [] →
        ∃ r, project.runWith .standard Diff.runs Exclusion.ofPatterns o [.ofString "/"] = .ok r ∧
          r.Settles o project after report := by
  have patterns : Exclusion.ofPatterns [] = .ok (.ofGlobs []) := rfl
  have found : project.discover (.ofGlobs []) [.ofString "/"] =
      [.ofString "/a.py", .ofString "/b.py"] := by decide
  have first : project.place? (.ofString "/a.py") = some ["a.py".toList] := by decide
  have second : project.place? (.ofString "/b.py") = some ["b.py".toList] := by decide
  have apart : (project.discover (.ofGlobs []) [.ofString "/"]).Pairwise project.Apart := by
    rw [found, List.pairwise_pair]
    intro place here there
    rw [first] at here
    rw [second] at there
    cases here
    exact absurd there (by decide)
  refine ⟨patterns, apart, ?_⟩
  obtain ⟨report, after, paths, tells, files, broken, all⟩ :=
    run_settles .standard Diff.runs Exclusion.ofPatterns { pretty := false } [] (.ofGlobs []) project
      [.ofString "/"] patterns apart
  have text : project.read (.ofString "/a.py") = .ok script := read_eq_ok_iff.2 ⟨_, first, rfl⟩
  have noText : project.read (.ofString "/b.py") = .error .notUtf8 := by
    rw [read_eq, second]
    decide
  have results : report.results =
      [⟨.ofString "/a.py", .changed, 1, 1⟩,
        ⟨.ofString "/b.py", .failed "Read error: stream did not contain valid UTF-8", 0, 0⟩] := by
    rw [found] at paths
    obtain ⟨x, more, hx, hp, hm⟩ := List.map_eq_cons_iff.1 paths
    obtain ⟨y, rest, rfl, hq, none⟩ := List.map_eq_cons_iff.1 hm
    obtain rfl := List.map_eq_nil_iff.1 none
    have x' := (tells x (by simp [hx])).read script (hp ▸ text)
    have y' := (tells y (by simp [hx])).unread .notUtf8 (hq ▸ noText)
    rw [transform_script] at x'
    obtain ⟨px, sx, cx, rx⟩ := x
    obtain ⟨py, sy, cy, ry⟩ := y
    dsimp only at *
    obtain ⟨rfl, rfl, rfl⟩ := x'
    obtain ⟨rfl, rfl, rfl⟩ := y'
    rw [hx, hp, hq]
    rfl
  refine ⟨report, after, results, ?_, ?_, fun o config same => (all o config same).1⟩
  · rcases files ["a.py".toList] with ⟨x, hx, -, there, source, read, looks, -⟩ | ⟨spared, -⟩
    · rw [results] at hx
      rcases List.mem_pair.1 hx with rfl | rfl
      · rw [text] at read
        cases read
        rw [looks, transform_script]
        exact congrArg (fun s => some (some s.toUTF8)) String.ofList_toList
      · rw [second] at there
        exact absurd there (by decide)
    · rw [results] at spared
      exact absurd rfl (spared _ List.mem_cons_self first)
  · exact (broken ["b.py".toList] ⟨#[0xff]⟩ rfl (by decide)).1

end Workspace
end HostSql
