import Jxtd.Storage.Datamanagement

/-!
# The areas on the local file system

What a pull and a push do when the current service is the local one.

* `push_new`, `push_old`: an exclusive create followed by `PUSH_DATA`.
* `push_append`: the append to a runtime file.
* `pull_file`, `pull_missing`: `PULL_DATA` of a file of less than `2 ^ 31` bytes, or of none.
-/

namespace Jxtd.Storage

open Lib Posix

/-- The flags of the pushes that must not find the file. -/
def exclusive : OpenFlags := { write := true, creat := true, excl := true }

/-- The flags of the push that appends. -/
def appending : OpenFlags := { creat := true, write := true, append := true }

namespace Local

variable {fs : Fs} {s : Str} {p : Path}

/-- The local `close` of the last descriptor, when it is one of a file. -/
theorem close_fresh (fs : Fs) (nodes : AList fun _ : Path => Node) (f f' : OpenFile) {data : Str}
    (hf : ({ fs with nodes := nodes } : Fs).node f'.path = some (.file data)) :
    close { fs with nodes := nodes, fds := (fs.fds.insert fs.freshFd f).insert fs.freshFd f' }
      fs.freshFd = (0, { fs with nodes := nodes }) := by
  have hmem : fs.freshFd ∈ (fs.fds.insert fs.freshFd f).insert fs.freshFd f' :=
    AList.mem_insert _ |>.mpr (.inl rfl)
  have hdir : Fs.isDirFd { fs with
      nodes := nodes, fds := (fs.fds.insert fs.freshFd f).insert fs.freshFd f' } fs.freshFd =
      some false := by
    rw [Fs.isDirFd, AList.lookup_insert, Option.map_some, Option.some_inj, decide_eq_false_iff_not]
    intro hd
    exact absurd (hd.symm.trans hf) (by simp)
  rw [close, hdir]
  show Fs.close _ _ = _
  rw [Fs.close, if_pos hmem]
  simp only [AList.insert_insert, Fs.erase_insert_fresh]

theorem sameTree_close (fs : Fs) (fd : ℤ) : fs.SameTree (close fs fd).2 := by
  unfold close
  split
  · exact Fs.sameTree_close fs fd
  · exact ⟨rfl, rfl⟩

theorem sameTree_closedir (fs : Fs) (fd : ℤ) : fs.SameTree (closedir fs fd).2 := by
  unfold closedir
  split
  · exact Fs.sameTree_close fs fd
  · exact ⟨rfl, rfl⟩

/-! ## Pushing -/

theorem pushData_allocate {flags : OpenFlags} {old : Str} (hw : flags.write = true)
    (hp : fs.node p = some (.file old)) (data : Str) :
    Datamanager.pushData localFileoperations (fs.allocate p flags).2 (fs.allocate p flags).1 data =
      (0, fs.set p (.file (Fs.splice old (if flags.append then old.length else 0) data))) := by
  obtain ⟨f', hf', hwrite⟩ := Fs.write_file (Fs.lookup_allocate fs p flags) hp hw data
  rw [Datamanager.pushData_ok (Fs.allocate_fst_ne fs p flags) hwrite (by omega)]
  have hnode := Fs.node_set fs (Fs.ne_nil_of_node_file hp)
    (.file (Fs.splice old (if flags.append then old.length else 0) data))
  rw [← show f'.path = p from hf'] at hnode ⊢
  exact congrArg (fun x => ((0 : ℤ), x.2)) (close_fresh fs _ _ f' hnode)

theorem push_new (hr : fs.resolve s = some p) (hp : fs.node p = none) (data : Str) :
    Datamanager.pushData localFileoperations (fs.openFile s exclusive).2
      (fs.openFile s exclusive).1 data = (0, fs.set p (.file data)) := by
  have hopen : fs.openFile s exclusive = (fs.set p (.file [])).allocate p exclusive := by
    rw [Fs.openFile, hr]
    simp only [hp]
    rfl
  rw [hopen, pushData_allocate rfl (Fs.node_set fs (Fs.ne_nil_of_node_none hp) _), Fs.set_set]
  simp [exclusive]

theorem push_old (h : ∀ p, fs.resolve s = some p → fs.node p ≠ none) (data : Str) :
    Datamanager.pushData localFileoperations (fs.openFile s exclusive).2
      (fs.openFile s exclusive).1 data = (-1, fs) := by
  have hopen : fs.openFile s exclusive = (-1, fs) := by
    unfold Fs.openFile
    cases hr : fs.resolve s with
    | none => rfl
    | some p =>
      cases hp : fs.node p with
      | none => exact absurd hp (h p hr)
      | some n => cases n <;> simp [hp, exclusive]
  rw [hopen]
  rfl

/-- **What an exclusive push leaves under a path** is its data exactly when the file is made there or
the data was there before. -/
theorem contents_push_iff (fs : Fs) (s s' data : Str) :
    (Datamanager.pushData localFileoperations (fs.openFile s exclusive).2
      (fs.openFile s exclusive).1 data).2.contents s' = some data ↔
      (∃ p, fs.resolve s = some p ∧ fs.resolve s' = some p ∧ fs.node p = none) ∨
        fs.contents s' = some data := by
  by_cases h : ∀ p, fs.resolve s = some p → fs.node p ≠ none
  · rw [push_old h]
    refine ⟨.inr, fun h' => h'.resolve_left ?_⟩
    rintro ⟨p, hr, -, hp⟩
    exact h p hr hp
  · push Not at h
    obtain ⟨p, hr, hp⟩ := h
    rw [push_new hr hp, Fs.contents_set_file_iff hp]
    refine or_congr_left ⟨fun hs' => ⟨p, hr, hs', hp⟩, ?_⟩
    rintro ⟨q, hq, hs', -⟩
    rw [hr] at hq
    cases hq
    exact hs'

theorem push_append {old : Str} (hr : fs.resolve s = some p) (hp : fs.node p = some (.file old))
    (data : Str) :
    Datamanager.pushData localFileoperations (fs.openFile s appending).2
      (fs.openFile s appending).1 data = (0, fs.set p (.file (old ++ data))) := by
  have hopen : fs.openFile s appending = fs.allocate p appending := by
    rw [Fs.openFile, hr]
    simp only [hp]
    rfl
  rw [hopen, pushData_allocate rfl hp]
  simp [appending]

/-- The first append makes the file. -/
theorem push_append_new (hr : fs.resolve s = some p) (hp : fs.node p = none) (data : Str) :
    Datamanager.pushData localFileoperations (fs.openFile s appending).2
      (fs.openFile s appending).1 data = (0, fs.set p (.file data)) := by
  have hopen : fs.openFile s appending = (fs.set p (.file [])).allocate p appending := by
    rw [Fs.openFile, hr]
    simp only [hp]
    rfl
  rw [hopen, pushData_allocate rfl (Fs.node_set fs (Fs.ne_nil_of_node_none hp) _), Fs.set_set]
  simp [appending]

/-! ## Pulling -/

theorem narrow_of_lt {n : ℕ} (h : n < 2 ^ 31) : Datamanager.narrow n = n := by
  rw [Datamanager.narrow, Int.bmod_eq_of_le] <;> omega

theorem pull_file {data : Str} (hr : fs.resolve s = some p) (hp : fs.node p = some (.file data))
    (hlen : data.length < 2 ^ 31) :
    Datamanager.pullData localFileoperations (fs.openFile s {}).2 (fs.openFile s {}).1 =
      .ok (data, fs) := by
  have hopen : fs.openFile s {} = fs.allocate p {} := by
    rw [Fs.openFile, hr]
    simp only [hp]
    rfl
  have hlookup := Fs.lookup_allocate fs p {}
  have hfile : (fs.allocate p {}).2.node p = some (.file data) := hp
  have hsize : (fs.allocate p {}).2.fsize (fs.allocate p {}).1 = data.length := by
    rw [Fs.fsize, hlookup]
    simp only [hfile]
  have hn := narrow_of_lt hlen
  obtain ⟨f', hf', hread⟩ := Fs.read_file hlookup hp rfl data.length
  rw [hopen, Datamanager.pullData_ok (Fs.allocate_fst_ne fs p {}) (congrArg (·, _) hsize)
    (by omega) (by rw [hn]; exact hread), hn]
  have hnode : fs.node f'.path = some (.file data) := hf' ▸ hp
  have hclose := congrArg Prod.snd (close_fresh fs fs.nodes ⟨p, false, false, 0⟩ f' hnode)
  simp only [Int.toNat_natCast, List.drop_zero, List.take_length, Nat.sub_self,
    List.replicate_zero, List.append_nil]
  exact congrArg (fun x => Except.ok (data, x)) hclose

/-- A size that is negative as an `int` ends the process. -/
theorem pull_error {data : Str} (hr : fs.resolve s = some p) (hp : fs.node p = some (.file data))
    (hlen : Datamanager.narrow data.length < -1) :
    Datamanager.pullData localFileoperations (fs.openFile s {}).2 (fs.openFile s {}).1 =
      .error .lengthError := by
  have hopen : fs.openFile s {} = fs.allocate p {} := by
    rw [Fs.openFile, hr]
    simp only [hp]
    rfl
  have hfile : (fs.allocate p {}).2.node p = some (.file data) := hp
  have hsize : (fs.allocate p {}).2.fsize (fs.allocate p {}).1 = data.length := by
    rw [Fs.fsize, Fs.lookup_allocate fs p {}]
    simp only [hfile]
  rw [hopen, Datamanager.pullData, if_neg (Fs.allocate_fst_ne fs p {})]
  dsimp only [localFileoperations]
  rw [hsize, if_neg (by omega), if_pos (by omega)]

theorem pull_missing (h : ∀ p, fs.resolve s = some p → fs.node p = none) :
    Datamanager.pullData localFileoperations (fs.openFile s {}).2 (fs.openFile s {}).1 =
      .ok ([], fs) := by
  have hopen : fs.openFile s {} = (-1, fs) := by
    unfold Fs.openFile
    cases hr : fs.resolve s with
    | none => rfl
    | some p => simp [h p hr]
  rw [hopen]
  rfl

/-- A pull changes nothing but the descriptors: that of a directory is not closed. -/
theorem sameTree_pullData {fs fs' : Fs} {fd : ℤ} {data : Str}
    (h : Datamanager.pullData localFileoperations fs fd = .ok (data, fs')) : fs.SameTree fs' := by
  rw [Datamanager.pullData] at h
  dsimp only [localFileoperations] at h
  split_ifs at h
  · cases h
    exact .refl fs
  · cases h
    exact sameTree_close fs fd
  · have hread := Fs.sameTree_read fs fd (Datamanager.narrow (fs.fsize fd)).toNat
    revert h hread
    generalize fs.read fd (Datamanager.narrow (fs.fsize fd)).toNat = out
    obtain ⟨_ | got, fs₁⟩ := out
    · intro h hread
      cases h
      exact hread.trans (sameTree_close fs₁ fd)
    · intro h hread
      cases h
      exact hread.trans (sameTree_close fs₁ fd)

theorem sameTree_pull {fs fs' : Fs} {s data : Str}
    (h : Datamanager.pullData localFileoperations (fs.openFile s {}).2 (fs.openFile s {}).1 =
      .ok (data, fs')) : fs.SameTree fs' :=
  (Fs.sameTree_openFile fs s rfl).trans (sameTree_pullData h)

/-- No pull returns more than `int` can count. -/
theorem length_pullData {fs fs' : Fs} {fd : ℤ} {data : Str}
    (h : Datamanager.pullData localFileoperations fs fd = .ok (data, fs')) :
    data.length < 2 ^ 31 := by
  have hnil : ([] : Str).length < 2 ^ 31 := by decide
  rw [Datamanager.pullData] at h
  dsimp only [localFileoperations] at h
  split_ifs at h
  · cases h
    exact hnil
  · cases h
    exact hnil
  · have hle := fs.length_read fd (Datamanager.narrow (fs.fsize fd)).toNat
    have hlt : Datamanager.narrow (fs.fsize fd) < 2 ^ 31 := Int.bmod_lt (by decide)
    revert h hle
    generalize fs.read fd (Datamanager.narrow (fs.fsize fd)).toNat = out
    obtain ⟨_ | got, fs₁⟩ := out
    · intro h _
      cases h
      exact hnil
    · intro h hle
      cases h
      have := hle got rfl
      rw [List.length_append, List.length_replicate]
      omega

/-- All files are so short that `int` can hold their size. -/
def Small (fs : Fs) : Prop := ∀ p data, fs.node p = some (.file data) → data.length < 2 ^ 31

theorem small_of_entries {fs : Fs} (h : fs.nodes.entries.all fun x =>
    match x.2 with
    | .file data => data.length < 2 ^ 31
    | .dir => true) : Small fs := by
  intro p data hp
  rw [Fs.node, if_neg (Fs.ne_nil_of_node_file hp)] at hp
  have hmem := AList.mem_lookup_iff.mp hp
  exact of_decide_eq_true (List.all_eq_true.mp h _ hmem)

theorem Small.sameTree {fs fs' : Fs} (h : Small fs) (hs : fs.SameTree fs') : Small fs' :=
  fun p data hp => h p data ((hs.node p).symm.trans hp)

/-- A directory can be opened but not read. -/
theorem pull_dir (hr : fs.resolve s = some p) (hp : fs.IsDir p) : ∃ fs',
    Datamanager.pullData localFileoperations (fs.openFile s {}).2 (fs.openFile s {}).1 =
      .ok ([], fs') := by
  rw [Fs.IsDir] at hp
  have hopen : fs.openFile s {} = fs.allocate p {} := by
    rw [Fs.openFile, hr]
    simp only [hp]
    rfl
  have hlookup := Fs.lookup_allocate fs p {}
  have hnode : (fs.allocate p {}).2.node p = some .dir := hp
  have hsize : (fs.allocate p {}).2.fsize (fs.allocate p {}).1 = 4096 := by
    rw [Fs.fsize, hlookup]
    simp only [hnode]
  have hread : (fs.allocate p {}).2.read (fs.allocate p {}).1 4096 =
      (none, (fs.allocate p {}).2) := by
    rw [Fs.read, hlookup]
    simp only [hnode]
  rw [hopen, Datamanager.pullData, if_neg (Fs.allocate_fst_ne fs p {})]
  dsimp only [localFileoperations]
  rw [hsize, if_neg (by decide), if_neg (by decide),
    show (Datamanager.narrow 4096).toNat = 4096 from rfl, hread]
  exact ⟨_, rfl⟩

/-- **A pull returns the contents**, or nothing. -/
theorem pull_contents (h : ∀ data, fs.contents s = some data → data.length < 2 ^ 31) : ∃ fs',
    Datamanager.pullData localFileoperations (fs.openFile s {}).2 (fs.openFile s {}).1 =
      .ok ((fs.contents s).getD [], fs') := by
  cases hr : fs.resolve s with
  | none =>
    have hcontents : fs.contents s = none := by simp [Fs.contents, hr]
    rw [hcontents]
    exact ⟨_, pull_missing (by simp [hr])⟩
  | some p =>
    cases hp : fs.node p with
    | none =>
      have hcontents : fs.contents s = none := by simp [Fs.contents, hr, hp]
      rw [hcontents]
      exact ⟨_, pull_missing (by simp [hr, hp])⟩
    | some n =>
      cases n with
      | file data =>
        have hcontents := Fs.contents_eq hr hp
        rw [hcontents]
        exact ⟨_, pull_file hr hp (h data hcontents)⟩
      | dir =>
        have hcontents : fs.contents s = none := by simp [Fs.contents, hr, hp]
        rw [hcontents]
        exact pull_dir hr hp

/-- Then every pull returns. -/
theorem Small.pull (h : Small fs) (s : Str) : ∃ fs',
    Datamanager.pullData localFileoperations (fs.openFile s {}).2 (fs.openFile s {}).1 =
      .ok ((fs.contents s).getD [], fs') := by
  refine pull_contents fun data hdata => ?_
  obtain ⟨p, -, hp⟩ := Fs.of_contents hdata
  exact h p data hp

/-! ## What a push leaves alone -/

theorem grows_push (fs : Fs) (s data : Str) :
    fs.Grows (Datamanager.pushData localFileoperations (fs.openFile s exclusive).2
      (fs.openFile s exclusive).1 data).2 := by
  by_cases h : ∀ p, fs.resolve s = some p → fs.node p ≠ none
  · rw [push_old h]
    exact .refl fs
  · push Not at h
    obtain ⟨p, hr, hp⟩ := h
    rw [push_new hr hp]
    exact Fs.grows_set hp _

/-- An append changes no node but the file itself, and that is no directory. -/
theorem push_append_frame (fs : Fs) (s data : Str) :
    (Datamanager.pushData localFileoperations (fs.openFile s appending).2
      (fs.openFile s appending).1 data).2 = fs ∨
    ∃ p content, fs.resolve s = some p ∧ ¬ fs.IsDir p ∧
      (Datamanager.pushData localFileoperations (fs.openFile s appending).2
        (fs.openFile s appending).1 data).2 = fs.set p (.file content) := by
  cases hr : fs.resolve s with
  | none =>
    left
    simp [Fs.openFile, hr, Datamanager.pushData]
  | some p =>
    cases hp : fs.node p with
    | none =>
      right
      exact ⟨p, data, rfl, by simp [Fs.IsDir, hp], by rw [push_append_new hr hp]⟩
    | some n =>
      cases n with
      | dir =>
        left
        simp [Fs.openFile, hr, hp, Datamanager.pushData, appending]
      | file old =>
        right
        exact ⟨p, old ++ data, rfl, by simp [Fs.IsDir, hp], by rw [push_append hr hp]⟩

end Local

end Jxtd.Storage
