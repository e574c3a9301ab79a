import HostSql.Proofs.Files.Writes
import HostSql.Run

/-! Work on several files at a time. Each file is read and transformed, and at some later time written;
between the two anything may happen to other files. As long as no two paths name the same file, the
order in which the files are read and written does not matter. -/
namespace HostSql

namespace FileStep
variable {format : Formatter} {differ : Diff.Differ} {o : RunOptions} {w : Workspace}
  {s s' : FileStep} {p q : Path}

theorem path_of (format : Formatter) (differ : Diff.Differ) (o : RunOptions) (p : Path)
    (r : Except ReadFault Text) :
    (FileStep.of format differ o p r).result.path = p := by
  unfold of
  split
  · rfl
  · dsimp only
    split <;> rfl

/-- A run that only looks writes nothing. -/
theorem apply_quiet (quiet : (o.check || o.diff) = true) (r : Except ReadFault Text) :
    (FileStep.of format differ o p r).apply w = w := by
  cases r with
  | error fault => rfl
  | ok source =>
    unfold of
    dsimp only
    rw [quiet]
    split <;> rfl

theorem sameShape_apply (w : Workspace) (s : FileStep) : w.SameShape (s.apply w) := by
  unfold apply
  split
  · exact Workspace.sameShape_write _ _ _
  · exact ⟨rfl, fun _ => rfl⟩

/-- Other files read as before. -/
theorem read_apply (apart : w.Apart s.result.path q) : (s.apply w).read q = w.read q := by
  unfold apply
  split
  · exact Workspace.read_write apart _
  · rfl

theorem apply_comm (apart : w.Apart s.result.path s'.result.path) :
    s'.apply (s.apply w) = s.apply (s'.apply w) := by
  unfold apply
  cases s.written with
  | none => rfl
  | some t =>
    cases s'.written with
    | none => rfl
    | some u => exact Workspace.write_comm apart t u

end FileStep

/-- How far the work on one file has come. -/
inductive Stage where
  | waiting
  /-- Read and transformed. -/
  | loaded (s : FileStep)
  /-- Written, if there was something to write. -/
  | done (s : FileStep)

structure Task where
  path : Path
  stage : Stage

/-- Tasks that are worked on side by side, and the files as they are at the moment. -/
structure Pool where
  tasks : List Task
  workspace : Workspace

namespace Task

/-- The files after what the task has written. -/
def settle (w : Workspace) (x : Task) : Workspace :=
  match x.stage with
  | .done s => s.apply w
  | _ => w

def step? (x : Task) : Option FileStep :=
  match x.stage with
  | .done s => some s
  | _ => none

variable {w : Workspace} {s : FileStep} {p : Path} {xs : List Task}

theorem sameShape_settle (w : Workspace) (x : Task) : w.SameShape (settle w x) := by
  unfold settle
  split
  · exact FileStep.sameShape_apply _ _
  · exact ⟨rfl, fun _ => rfl⟩

theorem sameShape_settleAll (w : Workspace) (xs : List Task) : w.SameShape (xs.foldl settle w) := by
  induction xs generalizing w with
  | nil => exact ⟨rfl, fun _ => rfl⟩
  | cons x xs ih => exact (sameShape_settle w x).trans (ih _)

/-- What a task writes can be written before or after what tasks on other files write. -/
theorem settleAll_apply
    (apart : ∀ x ∈ xs, ∀ s', x.stage = .done s' → w.Apart s.result.path s'.result.path) :
    xs.foldl settle (s.apply w) = s.apply (xs.foldl settle w) := by
  induction xs generalizing w with
  | nil => rfl
  | cons x xs ih =>
    have first : settle (s.apply w) x = s.apply (settle w x) := by
      cases h : x.stage with
      | done s' =>
        simp only [settle, h]
        exact FileStep.apply_comm (apart x List.mem_cons_self s' h)
      | _ => simp only [settle, h]
    rw [List.foldl_cons, List.foldl_cons, first]
    refine ih fun y hy s' hs => ?_
    exact (sameShape_settle w x).apart (apart y (List.mem_cons_of_mem _ hy) s' hs)

/-- A file reads the same whatever has been written to other files. -/
theorem read_settleAll
    (apart : ∀ x ∈ xs, ∀ s', x.stage = .done s' → w.Apart s'.result.path p) :
    (xs.foldl settle w).read p = w.read p := by
  induction xs generalizing w with
  | nil => rfl
  | cons x xs ih =>
    have first : (settle w x).read p = w.read p := by
      cases h : x.stage with
      | done s' =>
        simp only [settle, h]
        exact FileStep.read_apply (apart x List.mem_cons_self s' h)
      | _ => simp only [settle, h]
    rw [List.foldl_cons, ← first]
    refine ih fun y hy s' hs => ?_
    exact (sameShape_settle w x).apart (apart y (List.mem_cons_of_mem _ hy) s' hs)

end Task

namespace Pool
variable {format : Formatter} {differ : Diff.Differ} {o : RunOptions} {w : Workspace} {ps : List Path}
  {s s' : Pool}

def start (w : Workspace) (ps : List Path) : Pool := ⟨ps.map fun p => ⟨p, .waiting⟩, w⟩

/-- Some task goes on: it reads its file, or it writes it. -/
inductive Advances (format : Formatter) (differ : Diff.Differ) (o : RunOptions) : Pool → Pool → Prop
  | load (before after : List Task) (p : Path) (w : Workspace) :
      Advances format differ o ⟨before ++ ⟨p, .waiting⟩ :: after, w⟩
        ⟨before ++ ⟨p, .loaded (.of format differ o p (w.read p))⟩ :: after, w⟩
  | store (before after : List Task) (p : Path) (s : FileStep) (w : Workspace) :
      Advances format differ o ⟨before ++ ⟨p, .loaded s⟩ :: after, w⟩
        ⟨before ++ ⟨p, .done s⟩ :: after, s.apply w⟩

inductive Runs (format : Formatter) (differ : Diff.Differ) (o : RunOptions) : Pool → Pool → Prop
  | refl (s : Pool) : Runs format differ o s s
  | step {s s' s'' : Pool} (first : Advances format differ o s s')
      (more : Runs format differ o s' s'') : Runs format differ o s s''

def Complete (s : Pool) : Prop := ∀ x ∈ s.tasks, ∃ step, x.stage = .done step

def outcome (s : Pool) : Outcome := ⟨s.tasks.filterMap Task.step?, s.workspace⟩

/-- Every file that was read was read as it was in the beginning, and the files are what the tasks that
are done have made of them. -/
structure Tracks (format : Formatter) (differ : Diff.Differ) (o : RunOptions) (w : Workspace)
    (s : Pool) : Prop where
  apart : (s.tasks.map (·.path)).Pairwise w.Apart
  loaded : ∀ x ∈ s.tasks, ∀ step, x.stage = .loaded step ∨ x.stage = .done step →
    step = .of format differ o x.path (w.read x.path)
  workspace : s.workspace = s.tasks.foldl Task.settle w

theorem tracks_start (apart : ps.Pairwise w.Apart) : Tracks format differ o w (start w ps) where
  apart := by
    rw [start, List.map_map]
    exact (List.map_id ps).symm ▸ apart
  loaded := by
    intro x hx step reached
    obtain ⟨p, -, rfl⟩ := List.mem_map.1 hx
    rcases reached with h | h <;> cases h
  workspace := by
    rw [start]
    dsimp only
    induction ps with
    | nil => rfl
    | cons p ps ih => exact ih (List.Pairwise.of_cons apart)

/-- The other tasks work on other files. -/
theorem Tracks.others {before after : List Task} {x : Task} {w' : Workspace}
    (h : Tracks format differ o w ⟨before ++ x :: after, w'⟩) :
    ∀ y ∈ before ++ after, w.Apart x.path y.path := by
  have apart := h.apart
  rw [List.map_append, List.map_cons, List.pairwise_middle Workspace.Apart.symm,
    ← List.map_append, List.pairwise_cons] at apart
  exact fun y hy => apart.1 y.path (List.mem_map_of_mem hy)

/-- What is done by the other tasks concerns other files. -/
theorem Tracks.done {before after : List Task} {x : Task} {w' : Workspace}
    (h : Tracks format differ o w ⟨before ++ x :: after, w'⟩) :
    ∀ y ∈ before ++ after, ∀ step, y.stage = .done step → w.Apart x.path step.result.path := by
  intro y hy step reached
  have there : y ∈ before ++ x :: after := by
    rcases List.mem_append.1 hy with hy | hy <;> simp [hy]
  rw [h.loaded y there step (.inr reached), FileStep.path_of]
  exact h.others y hy

theorem tracks_advances (h : Tracks format differ o w s) (step : Advances format differ o s s') :
    Tracks format differ o w s' := by
  cases step with
  | load before after p u =>
    have now : u = (before ++ ⟨p, .waiting⟩ :: after).foldl Task.settle w := h.workspace
    have untouched : u.read p = w.read p := by
      rw [now]
      refine Task.read_settleAll fun x hx step reached => ?_
      rcases List.mem_append.1 hx with hx | hx
      · exact (h.done x (List.mem_append_left _ hx) step reached).symm
      · rcases List.mem_cons.1 hx with rfl | hx
        · cases reached
        · exact (h.done x (List.mem_append_right _ hx) step reached).symm
    refine ⟨by simpa using h.apart, fun x hx step reached => ?_, ?_⟩
    · rcases List.mem_append.1 hx with hx | hx
      · exact h.loaded x (List.mem_append_left _ hx) step reached
      · rcases List.mem_cons.1 hx with rfl | hx
        · rcases reached with same | same
          · cases same
            rw [untouched]
          · cases same
        · exact h.loaded x (List.mem_append_right _ (List.mem_cons_of_mem _ hx)) step reached
    · dsimp only
      rw [now, List.foldl_append, List.foldl_append]
      rfl
  | store before after p step u =>
    have now : u = (before ++ ⟨p, .loaded step⟩ :: after).foldl Task.settle w := h.workspace
    have own : step = .of format differ o p (w.read p) :=
      h.loaded ⟨p, .loaded step⟩ (by simp) step (.inl rfl)
    refine ⟨by simpa using h.apart, fun x hx step' reached => ?_, ?_⟩
    · rcases List.mem_append.1 hx with hx | hx
      · exact h.loaded x (List.mem_append_left _ hx) step' reached
      · rcases List.mem_cons.1 hx with rfl | hx
        · rcases reached with same | same
          · cases same
          · cases same
            exact own
        · exact h.loaded x (List.mem_append_right _ (List.mem_cons_of_mem _ hx)) step' reached
    · dsimp only
      rw [now, List.foldl_append, List.foldl_append]
      have later : after.foldl Task.settle (step.apply (before.foldl Task.settle w)) =
          step.apply (after.foldl Task.settle (before.foldl Task.settle w)) := by
        refine Task.settleAll_apply fun x hx step' reached => ?_
        rw [own, FileStep.path_of]
        exact (Task.sameShape_settleAll w before).apart
          (h.done x (List.mem_append_right _ hx) step' reached)
      exact later.symm

theorem tracks_runs (h : Tracks format differ o w s) (run : Runs format differ o s s') :
    Tracks format differ o w s' := by
  induction run with
  | refl => exact h
  | step first _ ih => exact ih (tracks_advances h first)

theorem paths_advances (step : Advances format differ o s s') :
    s'.tasks.map (·.path) = s.tasks.map (·.path) := by
  cases step <;> simp

theorem paths_runs (run : Runs format differ o s s') :
    s'.tasks.map (·.path) = s.tasks.map (·.path) := by
  induction run with
  | refl => rfl
  | step first _ ih => exact ih.trans (paths_advances first)

/-- When all tasks are done, each has made of its file what the file in the beginning called for. -/
theorem Tracks.outcome_eq (h : Tracks format differ o w s) (complete : s.Complete) :
    s.outcome = w.runAtOnce format differ o (s.tasks.map (·.path)) := by
  obtain ⟨-, loaded, workspace⟩ := h
  have all (xs : List Task) (sub : ∀ x ∈ xs, x ∈ s.tasks) (u : Workspace) :
      xs.filterMap Task.step? =
          (xs.map (·.path)).map (fun p => FileStep.of format differ o p (w.read p)) ∧
        xs.foldl Task.settle u =
          ((xs.map (·.path)).map fun p => FileStep.of format differ o p (w.read p)).foldl FileStep.apply u := by
    induction xs generalizing u with
    | nil => exact ⟨rfl, rfl⟩
    | cons x xs ih =>
      have hx := sub x List.mem_cons_self
      obtain ⟨step, done⟩ := complete x hx
      have own := loaded x hx step (.inr done)
      obtain ⟨steps, files⟩ := ih (fun y hy => sub y (List.mem_cons_of_mem _ hy)) (step.apply u)
      constructor
      · simp only [List.filterMap_cons, Task.step?, done, List.map_cons, steps, own]
      · rw [List.foldl_cons, Task.settle, done]
        dsimp only
        rw [files, List.map_cons, List.map_cons, List.foldl_cons, ← own]
  obtain ⟨steps, files⟩ := all s.tasks (fun _ hx => hx) w
  rw [outcome, workspace, steps, files]
  rfl

/-- However the work is scheduled, the outcome is the same. -/
theorem outcome_of_runs (apart : ps.Pairwise w.Apart) (run : Runs format differ o (start w ps) s)
    (complete : s.Complete) : s.outcome = w.runAtOnce format differ o ps := by
  have paths : s.tasks.map (·.path) = ps := by
    rw [paths_runs run, start, List.map_map]
    exact List.map_id ps
  rw [(tracks_runs (tracks_start apart) run).outcome_eq complete, paths]

/-- To take the files one after the other is one of the schedules. -/
theorem runs_inTurn (format : Formatter) (differ : Diff.Differ) (o : RunOptions) (w : Workspace)
    (ps : List Path)
    (before : List Task) :
    Runs format differ o ⟨before ++ ps.map (fun p => ⟨p, .waiting⟩), w⟩
      ⟨before ++ (w.runInTurn format differ o ps).steps.map (fun s => ⟨s.result.path, .done s⟩),
        (w.runInTurn format differ o ps).workspace⟩ := by
  induction ps generalizing w before with
  | nil => exact .refl _
  | cons p ps ih =>
    let s := FileStep.of format differ o p (w.read p)
    have own : s.result.path = p := FileStep.path_of format differ o p _
    refine .step (.load before _ p w) (.step (.store before _ p s w) ?_)
    have rest := ih (s.apply w) (before ++ [⟨p, .done s⟩])
    rw [List.append_assoc, List.append_assoc] at rest
    rw [Workspace.runInTurn]
    dsimp only
    rw [List.map_cons, own]
    exact rest

end Pool

/-- The files as the ones before have left them are the files as they were. -/
theorem Workspace.runInTurn_eq {format : Formatter} {differ : Diff.Differ} {o : RunOptions}
    {w : Workspace} {ps : List Path} (apart : ps.Pairwise w.Apart) :
    w.runInTurn format differ o ps = w.runAtOnce format differ o ps := by
  have run := Pool.runs_inTurn format differ o w ps []
  have complete : Pool.Complete ⟨[] ++ (w.runInTurn format differ o ps).steps.map
      (fun s => ⟨s.result.path, .done s⟩), (w.runInTurn format differ o ps).workspace⟩ := by
    intro x hx
    obtain ⟨s, -, rfl⟩ := List.mem_map.1 hx
    exact ⟨s, rfl⟩
  have same := Pool.outcome_of_runs apart run complete
  have steps (ss : List FileStep) :
      (ss.map fun s => (⟨s.result.path, .done s⟩ : Task)).filterMap Task.step? = ss := by
    induction ss with
    | nil => rfl
    | cons s ss ih => exact congrArg (s :: ·) ih
  rw [Pool.outcome, List.nil_append, steps] at same
  exact same

end HostSql
