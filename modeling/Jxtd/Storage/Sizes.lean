import Jxtd.Storage.Transfers

/-!
# Sizes of stored files

A pull asks for the size of a file, which it keeps as an `int`
(`storage/datamanagement/datamanagement.cc`). Runtime data is appended to one file, an engine and a
binary are written once.

* `Returns`: a pull returns some data.
* `runtimePushes`: runtime data that is pushed piece by piece.
* `contents_runtimePushes`, `contents_push`: what is stored then.
* **`pulls_whole_iff`**: exactly the sizes at which a pull returns what was stored.
-/

namespace Jxtd.Storage

open Lib Posix

/-- A pull returns these data. -/
def Returns (pull : Except Fault (Str × Fs)) (data : Str) : Prop :=
  ∃ fs', pull = .ok (data, fs')

/-- Pushes to the runtime file of a task that all succeed. -/
def runtimePushes (d : Datamanager) (t : UInt64) : Fs → List Str → Option Fs
  | fs, [] => some fs
  | fs, runtime :: rest =>
    let (n, fs') := d.runtimePush localFileoperations fs t runtime
    if n = 0 then runtimePushes d t fs' rest else none

section Pulls

variable {d : Datamanager} {fs fs' : Fs} {s data : Str} {t : UInt64}

theorem returns_iff_map {pull : Except Fault (Str × Fs)} :
    Returns pull data ↔ pull.map Prod.fst = .ok data := by
  constructor
  · rintro ⟨fs', rfl⟩
    rfl
  · intro h
    obtain ⟨⟨data', fs'⟩, rfl, rfl⟩ := map_eq_ok.mp h
    exact ⟨fs', rfl⟩

/-- **A pull returns the data of its file** as long as `int` can hold the size. -/
theorem returns_iff (h : (fs.contents s).getD [] = data) :
    Returns (Datamanager.pullData localFileoperations (fs.openFile s {}).2 (fs.openFile s {}).1)
      data ↔ data.length < 2 ^ 31 := by
  rw [returns_iff_map, pull_readBack, h]
  exact readBack_eq_self_iff

/-! ## What is stored -/

/-- An append that succeeds. -/
theorem contents_append (h : (Datamanager.pushData localFileoperations (fs.openFile s appending).2
      (fs.openFile s appending).1 data).1 = 0) :
    ((Datamanager.pushData localFileoperations (fs.openFile s appending).2
      (fs.openFile s appending).1 data).2.contents s).getD [] =
      (fs.contents s).getD [] ++ data := by
  cases hr : fs.resolve s with
  | none =>
    simp [Fs.openFile, hr, Datamanager.pushData] at h
  | some p =>
    cases hp : fs.node p with
    | none =>
      have hempty : fs.contents s = none := by simp [Fs.contents, hr, hp]
      have hnew : (fs.set p (.file data)).contents s = some data :=
        (Fs.contents_set_file_iff hp data s).mpr (.inl hr)
      rw [Local.push_append_new hr hp, hempty, hnew]
      rfl
    | some n =>
      cases n with
      | dir => simp [Fs.openFile, hr, hp, Datamanager.pushData, appending] at h
      | file old =>
        have hdir : ¬ fs.IsDir p := by simp [Fs.IsDir, hp]
        have hr' := (Fs.keepsDirs_set_file hdir (old ++ data)).resolve hr
        rw [Local.push_append hr hp, Fs.contents_eq hr hp,
          Fs.contents_eq hr' (Fs.node_set fs (Fs.ne_nil_of_node_file hp) _)]
        rfl

/-- **Runtime data** is what was pushed, one piece after the other. -/
theorem contents_runtimePushes {pieces : List Str} (h : runtimePushes d t fs pieces = some fs') :
    (fs'.contents (d.runtimePath t)).getD [] =
      (fs.contents (d.runtimePath t)).getD [] ++ pieces.flatten := by
  induction pieces generalizing fs with
  | nil =>
    cases h
    rw [List.flatten_nil, List.append_nil]
  | cons runtime rest ih =>
    rw [runtimePushes] at h
    dsimp only at h
    split_ifs at h with hpush
    have hstored : ((d.runtimePush localFileoperations fs t runtime).2.contents
        (d.runtimePath t)).getD [] = (fs.contents (d.runtimePath t)).getD [] ++ runtime :=
      contents_append hpush
    rw [ih h, hstored, List.append_assoc, List.flatten_cons]

/-- An exclusive push that succeeds. -/
theorem contents_push (h : Datamanager.pushData localFileoperations (fs.openFile s exclusive).2
      (fs.openFile s exclusive).1 data = (0, fs')) : fs'.contents s = some data := by
  by_cases hold : ∀ p, fs.resolve s = some p → fs.node p ≠ none
  · rw [Local.push_old hold] at h
    cases h
  · push Not at hold
    obtain ⟨p, hr, hp⟩ := hold
    have hstored := (Local.contents_push_iff fs s s data).mpr (.inl ⟨p, hr, hr, hp⟩)
    rwa [h] at hstored

/-! ## Pulls -/

/-- **Exactly which sizes are pulled whole**: those below `2 ^ 31`, of runtime data that was pushed
piece by piece to a new file, of an engine and of a binary that were pushed. -/
theorem pulls_whole_iff (d : Datamanager) (fs : Fs) :
    (∀ t pieces fs', fs.contents (d.runtimePath t) = none →
      runtimePushes d t fs pieces = some fs' →
        (Returns (d.runtimePull localFileoperations fs' t) pieces.flatten ↔
          pieces.flatten.length < 2 ^ 31)) ∧
    (∀ mid name engine fs', d.enginePush localFileoperations fs mid name engine = (0, fs') →
      (Returns (d.enginePull localFileoperations fs' mid name) engine ↔ engine.length < 2 ^ 31)) ∧
    ∀ path binary fs', d.binaryPush localFileoperations fs path binary = (0, fs') →
      (Returns (d.binaryPull localFileoperations fs' path) binary ↔ binary.length < 2 ^ 31) := by
  refine ⟨fun t pieces fs' hnew hpushes => ?_, fun mid name engine fs' hpush => ?_,
    fun path binary fs' hpush => ?_⟩
  · have hstored := contents_runtimePushes hpushes
    rw [hnew, Option.getD_none, List.nil_append] at hstored
    exact returns_iff hstored
  · have hstored : fs'.contents (d.enginePath mid name) = some engine := contents_push hpush
    exact returns_iff (by rw [hstored, Option.getD_some])
  · rw [Datamanager.binaryPush_eq] at hpush
    have hstored : fs'.contents (d.binaryPath path) = some binary := contents_push hpush
    exact returns_iff (by rw [hstored, Option.getD_some])

/-- Runtime data in two pieces, and an engine, on a new node. -/
theorem pulls_whole_newNode : ∃ fs' fs'',
    runtimePushes newNode.dManager 5 newNode.fs [[0x01], [0x02]] = some fs' ∧
    Returns (newNode.dManager.runtimePull localFileoperations fs' 5) [0x01, 0x02] ∧
    newNode.dManager.enginePush localFileoperations fs' (lit "m") (lit "n") [0x03] = (0, fs'') ∧
    Returns (newNode.dManager.enginePull localFileoperations fs'' (lit "m") (lit "n")) [0x03] := by
  obtain ⟨fs', hnew, hpushes⟩ : ∃ fs', newNode.fs.contents (newNode.dManager.runtimePath 5) = none ∧
    runtimePushes newNode.dManager 5 newNode.fs [[0x01], [0x02]] = some fs' := ⟨_, rfl, rfl⟩
  obtain ⟨fs'', hpush⟩ : ∃ fs'', newNode.dManager.enginePush localFileoperations fs' (lit "m")
    (lit "n") [0x03] = (0, fs'') := by
      cases hpushes
      exact ⟨_, rfl⟩
  obtain ⟨hruntime, -, -⟩ := pulls_whole_iff newNode.dManager newNode.fs
  obtain ⟨-, hengine, -⟩ := pulls_whole_iff newNode.dManager fs'
  exact ⟨fs', fs'', hpushes, (hruntime _ _ _ hnew hpushes).mpr (by decide), hpush,
    (hengine _ _ _ _ hpush).mpr (by decide)⟩

/-- Runtime data can be pushed for any task. -/
theorem Layout.runtimePushes {p : Path} (h : Layout d fs p) {log : Str} (hlog : Logged fs p t log)
    (pieces : List Str) : ∃ fs', runtimePushes d t fs pieces = some fs' := by
  induction pieces generalizing fs log with
  | nil => exact ⟨fs, rfl⟩
  | cons runtime rest ih =>
    have hwithin := h.runtimePush t runtime
    obtain ⟨fs₁, hpush, hlog₁⟩ := h.runtimePush_logged hlog runtime
    rw [hpush] at hwithin
    obtain ⟨fs', hrest⟩ := ih (h.keepsDirs hwithin.keeps (hwithin.wf h.wf) rfl) hlog₁
    refine ⟨fs', ?_⟩
    rw [Storage.runtimePushes, hpush]
    exact hrest

end Pulls

/-- The half of what an `int` cannot hold, twice. -/
def halves : List Str := [List.replicate (2 ^ 30) 0, List.replicate (2 ^ 30) 0]

theorem length_flatten_halves : halves.flatten.length = 2 ^ 31 := by
  rw [halves, List.flatten_cons, List.flatten_cons, List.flatten_nil, List.append_nil,
    List.length_append, List.length_replicate]
  norm_num

/-- Runtime data of `2 ^ 31` bytes on a new node. -/
theorem exists_runtimePull_error {pieces : List Str} (h : pieces.flatten.length = 2 ^ 31) :
    ∃ fs', newNode.fs.contents (newNode.dManager.runtimePath 5) = none ∧
      runtimePushes newNode.dManager 5 newNode.fs pieces = some fs' ∧
      newNode.dManager.runtimePull localFileoperations fs' 5 = .error .lengthError := by
  have hnode : newNode.fs.node ([lit "data"] ++ [lit "runtime", runtimeFile 5]) = none :=
    newNode_blank.empty (lit "runtime") (by decide) [runtimeFile 5] (List.cons_ne_nil _ _)
  have hnew : newNode.fs.contents (newNode.dManager.runtimePath 5) = none := by
    rw [Fs.contents, newNode_blank.resolve_runtime, Option.bind_some, hnode]
  obtain ⟨fs', hpushes⟩ := newNode_blank.toLayout.runtimePushes (.inr ⟨hnode, rfl⟩) pieces
  have hnarrow : Datamanager.narrow (2 ^ 31 : ℕ) = -2 ^ 31 := by decide
  have hstored := contents_runtimePushes hpushes
  rw [hnew, Option.getD_none, List.nil_append] at hstored
  have hread := pull_readBack fs' (newNode.dManager.runtimePath 5)
  rw [hstored, readBack, h, hnarrow, if_neg (by decide), if_pos (by decide)] at hread
  exact ⟨fs', hnew, hpushes, map_eq_error.mp hread⟩

/-- **Runtime data of `2 ^ 31` bytes** ends the process when it is pulled. -/
theorem runtime_too_long : ∃ fs', newNode.fs.contents (newNode.dManager.runtimePath 5) = none ∧
    runtimePushes newNode.dManager 5 newNode.fs halves = some fs' ∧
    ¬ Returns (newNode.dManager.runtimePull localFileoperations fs' 5) halves.flatten := by
  obtain ⟨fs', hnew, hpushes, hpull⟩ := exists_runtimePull_error length_flatten_halves
  refine ⟨fs', hnew, hpushes, ?_⟩
  rintro ⟨fs'', hreturns⟩
  rw [hpull] at hreturns
  cases hreturns

end Jxtd.Storage
