import Jxtd.Computation.Datatransfer.ClientTask
import Jxtd.Storage.EngineArea

/-!
# What the callback of a pull writes

A response whose dependencies all have the relative path of the master, as the storage answers. The
client then writes one file.

* `Written`: the master is written; **`Written.depsDispose`**: the dependencies are written over it.
* `taskDir`: the directory of a task; `mkdirAll_taskPath`: how it is made.
* **`respDispose_new`**: every file that a response adds in a new directory.
* `Accepts.respDispose`: the file is written when its name is sound.
-/

namespace Jxtd.Computation

open Lib Posix Datatransfer Storage

/-! ## One file -/

variable {fs fs' : Fs} {pre file data : Str} {d p : Path}

/-- The file `file` below the directory `pre` is written; `d` and `p` are what they stand for. -/
structure Written (fs : Fs) (pre file : Str) (d p : Path) (data : Str) : Prop where
  wellFormed : fs.WellFormed
  cwd : fs.IsDir fs.cwd
  nul : 0 ∉ pre
  resolve : fs.resolve pre = some d
  isDir : fs.IsDir d
  walk : fs.walk d (components (cstr file)) = some p
  node : fs.node p = some (.file data)

theorem Written.not_isDir (h : Written fs pre file d p data) : ¬ fs.IsDir p := by
  rw [Fs.IsDir, h.node]
  simp

/-- It may be written over. -/
theorem Written.set (h : Written fs pre file d p data) (data' : Str) :
    Written (fs.set p (.file data')) pre file d p data' := by
  have hkeeps := Fs.keepsDirs_set_file h.not_isDir data'
  have hparent := h.wellFormed p (by rw [h.node]; simp)
  exact ⟨h.wellFormed.set hparent h.not_isDir, hkeeps.isDir _ h.cwd, h.nul,
    hkeeps.resolve h.resolve, hkeeps.isDir _ h.isDir, hkeeps.walk h.walk,
    Fs.node_set fs (Fs.ne_nil_of_node_file h.node) _⟩

theorem components_dot (s : Str) : components (lit "./" ++ s) = lit "." :: components s := by
  rw [show lit "./" ++ s = lit "." ++ slash :: s from rfl, components_append]
  rfl

/-- The relative path of a dependency leads to the same file. -/
theorem Written.resolve_relative (h : Written fs pre file d p data) :
    fs.resolve (pre ++ slash :: (lit "./" ++ file)) = some p := by
  rw [Fs.resolve_below h.nul h.resolve, Fs.cstr_append (by decide), components_dot, Fs.walk,
    if_pos h.isDir, if_pos (.inr rfl)]
  exact h.walk

/-- The directories for a dependency are there. A zero byte cuts the path of the directory at the
file itself, which is then in the way. -/
theorem Written.mkdirAll (h : Written fs pre file d p data) {pos : ℕ}
    (hpos : findLastSlash (lit "./" ++ file) = some pos) :
    fs.mkdirAll (pre ++ slash :: (lit "./" ++ file).take pos) =
      if 0 ∈ (lit "./" ++ file).take pos then none else some fs := by
  obtain ⟨hsplit, hlast⟩ := findLastSlash_split hpos
  split_ifs with h0
  · have hcstr : cstr ((lit "./" ++ file).take pos) = cstr (lit "./" ++ file) := by
      rw [← Fs.cstr_append_of_mem h0, hsplit]
    have hr : fs.resolve (pre ++ slash :: (lit "./" ++ file).take pos) = some p := by
      rw [Fs.resolve_below h.nul h.resolve, hcstr, ← Fs.resolve_below h.nul h.resolve]
      exact h.resolve_relative
    exact Fs.mkdirAll_file h.wellFormed h.cwd hr h.node
  · have hwalk := h.resolve_relative
    rw [Fs.resolve_below h.nul h.resolve, ← hsplit, Fs.cstr_append h0, Fs.cstr_cons_slash]
      at hwalk
    have hslash : slash ∉ cstr ((lit "./" ++ file).drop (pos + 1)) := fun hs =>
      hlast ((List.takeWhile_prefix _).subset hs)
    obtain ⟨q, hq, hdir⟩ := Fs.walk_above hslash hwalk
    have hr : fs.resolve (pre ++ slash :: (lit "./" ++ file).take pos) = some q := by
      rw [Fs.resolve_below h.nul h.resolve, cstr_of_notMem h0]
      exact hq
    exact Fs.mkdirAll_of_isDir hr hdir

theorem exists_findLastSlash (s : Str) : ∃ pos, findLastSlash (lit "./" ++ s) = some pos := by
  cases h : findLastSlash (lit "./" ++ s) with
  | none => exact absurd (notMem_of_findLastSlash h) (by simp [lit, slash])
  | some pos => exact ⟨pos, rfl⟩

/-- One dependency: either the exception, or its binary is written over the file. -/
theorem Written.depsDispose_cons (h : Written fs pre file d p data) (dep : Adtsrc)
    (deps : List (Adtsrc × Str)) :
    depsDispose (pre ++ [slash]) fs ((dep, lit "./" ++ file) :: deps) =
        depsDispose (pre ++ [slash]) (fs.set p (.file dep.binary)) deps ∨
      0 ∈ file ∧
        depsDispose (pre ++ [slash]) fs ((dep, lit "./" ++ file) :: deps) = none := by
  obtain ⟨pos, hpos⟩ := exists_findLastSlash file
  have hpath (s : Str) : pre ++ [slash] ++ s = pre ++ slash :: s := by simp
  have hmk := h.mkdirAll hpos
  rw [Computation.depsDispose, hpos]
  simp only [hpath]
  split_ifs at hmk with h0
  · refine .inr ⟨?_, by rw [hmk]⟩
    have hmem := List.mem_of_mem_take h0
    rw [List.mem_append] at hmem
    exact hmem.resolve_left (by decide)
  · left
    rw [hmk]
    dsimp only
    rw [Fs.writeFile_of_resolve h.resolve_relative h.not_isDir, Option.getD_some]

/-- **The dependencies are written over the master.** -/
theorem Written.depsDispose (h : Written fs pre file d p data) {deps : List (Adtsrc × Str)}
    (hrel : ∀ dep ∈ deps, dep.2 = lit "./" ++ file)
    (hout : depsDispose (pre ++ [slash]) fs deps = some fs') :
    ∃ content ∈ data :: deps.map fun dep => dep.1.binary,
      Written fs' pre file d p content ∧ ∀ q, q ≠ p → fs'.node q = fs.node q := by
  induction deps generalizing fs data with
  | nil =>
    cases hout
    exact ⟨data, List.mem_cons_self, h, fun _ _ => rfl⟩
  | cons dep deps ih =>
    obtain ⟨dep, relative⟩ := dep
    obtain rfl : relative = lit "./" ++ file := hrel _ List.mem_cons_self
    rcases h.depsDispose_cons dep deps with heq | ⟨-, hnone⟩
    · rw [heq] at hout
      obtain ⟨content, hmem, hwritten, hkeep⟩ := ih (h.set dep.binary)
        (fun dep' hdep' => hrel dep' (List.mem_cons_of_mem _ hdep')) hout
      refine ⟨content, List.mem_cons_of_mem _ hmem, hwritten, fun q hq => ?_⟩
      rw [hkeep q hq, Fs.node_set_ne _ hq]
    · rw [hnone] at hout
      cases hout

theorem Written.exists_depsDispose (h : Written fs pre file d p data) (h0 : 0 ∉ file)
    {deps : List (Adtsrc × Str)} (hrel : ∀ dep ∈ deps, dep.2 = lit "./" ++ file) :
    ∃ fs', Computation.depsDispose (pre ++ [slash]) fs deps = some fs' := by
  induction deps generalizing fs data with
  | nil => exact ⟨fs, rfl⟩
  | cons dep deps ih =>
    obtain ⟨dep, relative⟩ := dep
    obtain rfl : relative = lit "./" ++ file := hrel _ List.mem_cons_self
    rcases h.depsDispose_cons dep deps with heq | ⟨hmem, -⟩
    · rw [heq]
      exact ih (h.set dep.binary) fun dep' hdep' => hrel dep' (List.mem_cons_of_mem _ hdep')
    · exact absurd hmem h0

/-! ## The directory of the task -/

/-- The directory that `taskPath` stands for. -/
def taskDir (client : Fs) (taskid : ℕ) : Path :=
  client.cwd.dropLast ++ [lit "Task_" ++ decimal taskid]

/-- A client whose working directory is there. -/
structure Ready (client : Fs) : Prop where
  wellFormed : client.WellFormed
  cwd : client.IsDir client.cwd

theorem clean_task (taskid : ℕ) : Clean (lit "Task_" ++ decimal taskid) :=
  Clean.append (by decide) (clean_decimal taskid)

theorem plain_task (taskid : ℕ) : Fs.Plain (lit "Task_" ++ decimal taskid) :=
  Fs.plain_of_head (by decide : (0x54 : UInt8) ≠ 0x2e)

/-- The path of the directory, without the slash at its end. -/
def taskPre (taskid : ℕ) : Str := lit "../Task_" ++ decimal taskid

theorem taskPath_eq (taskid : ℕ) : taskPath taskid = taskPre taskid ++ [slash] := rfl

theorem notMem_taskPre (taskid : ℕ) : 0 ∉ taskPre taskid := by
  rw [taskPre, List.mem_append, not_or]
  exact ⟨by decide, (clean_decimal taskid).1⟩

theorem components_taskPre (taskid : ℕ) :
    components (taskPre taskid) = [lit "..", lit "Task_" ++ decimal taskid] := by
  rw [show taskPre taskid = lit ".." ++ slash :: (lit "Task_" ++ decimal taskid) from rfl,
    components_append, components_of_notMem (clean_task taskid).2]
  rfl

theorem Ready.resolve_taskPre {client : Fs} (h : Ready client) (taskid : ℕ) :
    client.resolve (taskPre taskid) = some (taskDir client taskid) := by
  have hup : client.IsDir client.cwd.dropLast := h.wellFormed.dropLast h.cwd
  have hstart : client.start (taskPre taskid) = client.cwd := rfl
  have hne : taskPre taskid ≠ [] := by
    simp [taskPre, lit]
  rw [Fs.resolve, cstr_of_notMem (notMem_taskPre taskid), if_neg hne, hstart, components_taskPre,
    Fs.walk, if_pos h.cwd, if_neg (by decide), if_pos rfl, Fs.walk_plain (plain_task taskid) hup,
    Fs.walk]
  rfl

theorem mkdirAll_taskPath (client : Fs) (taskid : ℕ) :
    client.mkdirAll (taskPath taskid) =
      match client.node (taskDir client taskid) with
      | some .dir => some client
      | some (.file _) => none
      | none => some (client.set (taskDir client taskid) .dir) := by
  have hplain := plain_task taskid
  have h0 : 0 ∉ taskPath taskid := by
    rw [taskPath_eq, List.mem_append, not_or]
    exact ⟨notMem_taskPre taskid, by decide⟩
  have hcomponents : components (taskPath taskid) =
      [lit "..", lit "Task_" ++ decimal taskid, []] := by
    rw [taskPath_eq, components_append, components_taskPre]
    rfl
  have hstart : client.start (taskPath taskid) = client.cwd := rfl
  have hcur : client.cwd.dropLast ++ [lit "Task_" ++ decimal taskid] = taskDir client taskid := rfl
  rw [Fs.mkdirAll, cstr_of_notMem h0, if_neg (by simp [taskPath_eq]), hstart, hcomponents,
    Fs.mkdirWalk, if_neg (by decide), if_pos rfl, Fs.mkdirWalk,
    if_neg (not_or.mpr ⟨hplain.1, hplain.2.1⟩), if_neg hplain.2.2, hcur]
  cases client.node (taskDir client taskid) with
  | none => rfl
  | some n => cases n <;> rfl

/-- The directory of a task is there, and else nothing is new. -/
structure Made (client fs : Fs) (taskid : ℕ) : Prop where
  ready : Ready fs
  cwd : fs.cwd = client.cwd
  isDir : fs.IsDir (taskDir client taskid)
  node : ∀ q, q ≠ taskDir client taskid → fs.node q = client.node q

theorem Ready.made {client fs : Fs} {taskid : ℕ} (h : Ready client)
    (hmk : client.mkdirAll (taskPath taskid) = some fs) : Made client fs taskid := by
  rw [mkdirAll_taskPath] at hmk
  split at hmk
  · rename_i hdir
    cases hmk
    exact ⟨h, rfl, hdir, fun _ _ => rfl⟩
  · cases hmk
  · rename_i hnone
    cases hmk
    have hgrows := Fs.grows_set hnone .dir
    have hup : client.IsDir (taskDir client taskid).dropLast := by
      rw [taskDir, List.dropLast_concat]
      exact h.wellFormed.dropLast h.cwd
    have hnot : ¬ client.IsDir (taskDir client taskid) := by simp [Fs.IsDir, hnone]
    exact ⟨⟨h.wellFormed.set hup hnot, hgrows.keepsDirs.isDir _ h.cwd⟩, rfl,
      Fs.node_set client (Fs.ne_nil_of_node_none hnone) _, fun q hq => Fs.node_set_ne client hq _⟩

theorem Made.resolve_taskPre {client fs : Fs} {taskid : ℕ} (h : Made client fs taskid) :
    fs.resolve (taskPre taskid) = some (taskDir client taskid) := by
  rw [h.ready.resolve_taskPre, taskDir, taskDir, h.cwd]

theorem taskDir_injective (client : Fs) : Function.Injective (taskDir client) := by
  intro t t' h
  have hname : lit "Task_" ++ decimal t = lit "Task_" ++ decimal t' :=
    List.singleton_inj.mp (List.append_cancel_left h)
  exact decimal_injective (List.append_cancel_left hname)

/-! ## The response -/

open Storage.Datamanager (engineFile)

/-- The path that the client gives to a file of a task. -/
theorem taskPath_append (taskid : ℕ) (file : Str) :
    taskPath taskid ++ file = taskPre taskid ++ slash :: file := by
  rw [taskPath_eq, List.append_assoc, List.singleton_append]

/-- The dependencies have the relative path of the master. -/
def SamePath (dtsrc : Dtsrc) : Prop :=
  ∀ dep ∈ dtsrc.deps,
    dep.2 = lit "./" ++ engineFile dtsrc.master.engineattr.1 dtsrc.master.engineattr.2

/-- The binaries of a response. -/
def binaries (dtsrc : Dtsrc) : List Str :=
  dtsrc.master.binary :: dtsrc.deps.map fun dep => dep.1.binary

variable {client client' : Fs} {names names' : List (Str × Str)} {dtsrc : Dtsrc}

/-- The master, once it is written. -/
theorem Made.written {fs fs' : Fs} {taskid : ℕ} {file data : Str} (h : Made client fs taskid)
    (hwrite : fs.writeFile (taskPath taskid ++ file) data = some fs') :
    ∃ p, fs.resolve (taskPath taskid ++ file) = some p ∧ fs' = fs.set p (.file data) ∧
      Written fs' (taskPre taskid) file (taskDir client taskid) p data := by
  obtain ⟨p, hr, hp, rfl⟩ := Fs.of_writeFile hwrite
  have hkeeps := Fs.keepsDirs_set_file hp data
  have hwalk := hr
  rw [taskPath_append, Fs.resolve_below (notMem_taskPre taskid) h.resolve_taskPre] at hwalk
  -- a path leads to a directory or to an entry of one
  obtain ⟨q, c, -, rfl, hq⟩ := (Fs.walk_end h.ready.wellFormed h.isDir hwalk).resolve_left hp
  have hup : fs.IsDir (q ++ [c]).dropLast := by rwa [List.dropLast_concat]
  exact ⟨_, hr, rfl, h.ready.wellFormed.set hup hp, hkeeps.isDir _ h.ready.cwd,
    notMem_taskPre taskid, hkeeps.resolve h.resolve_taskPre, hkeeps.isDir _ h.isDir,
    hkeeps.walk hwalk, Fs.node_set fs (by simp) _⟩

/-- **What a response can do**: nothing, or one file is written below the directory of the task. -/
theorem respDispose_cases (h : Ready client) (hsame : SamePath dtsrc)
    (hout : respDispose names client dtsrc = some (names', client')) :
    client' = client ∨
    dtsrc.master.engineattr.1 ≠ [] ∧ dtsrc.master.engineattr.2 ≠ [] ∧ dtsrc.master.binary ≠ [] ∧
    ∃ fs, client.mkdirAll (taskPath dtsrc.master.taskid.toNat) = some fs ∧
      (client' = fs ∨ ∃ p, ∃ content ∈ binaries dtsrc,
        fs.resolve (taskPath dtsrc.master.taskid.toNat ++
          engineFile dtsrc.master.engineattr.1 dtsrc.master.engineattr.2) = some p ∧
        Written client' (taskPre dtsrc.master.taskid.toNat)
          (engineFile dtsrc.master.engineattr.1 dtsrc.master.engineattr.2)
          (taskDir client dtsrc.master.taskid.toNat) p content ∧
        ∀ q, q ≠ p → client'.node q = fs.node q) := by
  unfold respDispose at hout
  dsimp only at hout
  split_ifs at hout with hempty
  · cases hout
    exact .inl rfl
  · rw [not_or, not_or] at hempty
    split at hout
    · cases hout
    · rename_i fs hmk
      refine .inr ⟨hempty.1, hempty.2.1, hempty.2.2, fs, hmk, ?_⟩
      split at hout
      · cases hout
        exact .inl rfl
      · rename_i fs' hwrite
        split at hout
        · cases hout
        · rename_i fs'' hdeps
          cases hout
          obtain ⟨p, hr, rfl, hwritten⟩ := (h.made hmk).written hwrite
          obtain ⟨content, hmem, hw, hnode⟩ := hwritten.depsDispose hsame hdeps
          refine .inr ⟨p, content, hmem, hr, hw, fun q hq => ?_⟩
          rw [hnode q hq, Fs.node_set_ne _ hq]

/-- **Every file that a response adds in a new directory** is the one of its master, in the
directory of its task, and holds one of the binaries. -/
theorem respDispose_new (h : Ready client) (hsame : SamePath dtsrc)
    (hout : respDispose names client dtsrc = some (names', client')) {d : Path} {f b : Str}
    (hd : client.node d = none) (hfile : client'.node (d ++ [f]) = some (.file b)) :
    (dtsrc.master.engineattr.1 ≠ [] ∧ dtsrc.master.engineattr.2 ≠ [] ∧
      dtsrc.master.binary ≠ []) ∧
    d = taskDir client dtsrc.master.taskid.toNat ∧ Clean f ∧ b ∈ binaries dtsrc ∧
    ∃ fs, client.mkdirAll (taskPath dtsrc.master.taskid.toNat) = some fs ∧
      fs.resolve (taskPath dtsrc.master.taskid.toNat ++
        engineFile dtsrc.master.engineattr.1 dtsrc.master.engineattr.2) = some (d ++ [f]) := by
  have hnone := h.wellFormed.node_below hd f
  rcases respDispose_cases h hsame hout with rfl | ⟨hid, hname, hbinary, fs, hmk, hrest⟩
  · rw [hnone] at hfile
    cases hfile
  · have hmade := h.made hmk
    -- no file comes with the directory
    have hfs : fs.node (d ++ [f]) ≠ some (.file b) := by
      intro hf
      by_cases heq : d ++ [f] = taskDir client dtsrc.master.taskid.toNat
      · rw [heq, show fs.node _ = some .dir from hmade.isDir] at hf
        cases hf
      · rw [hmade.node _ heq, hnone] at hf
        cases hf
    rcases hrest with rfl | ⟨p, content, hmem, hr, hw, hnode⟩
    · exact absurd hfile hfs
    · obtain rfl : d ++ [f] = p := by
        by_contra hne
        rw [hnode _ hne] at hfile
        exact hfs hfile
      obtain ⟨q, c, hc, heq, hq⟩ :=
        (Fs.walk_end hw.wellFormed hw.isDir hw.walk).resolve_left hw.not_isDir
      obtain ⟨rfl, hcf⟩ := List.append_inj' heq rfl
      obtain rfl := List.singleton_inj.mp hcf
      have hcontent : content = b := by
        rw [hw.node] at hfile
        cases hfile
        rfl
      refine ⟨⟨hid, hname, hbinary⟩, ?_, clean_of_mem_components hc, hcontent ▸ hmem, fs, hmk, hr⟩
      by_contra hne
      rw [Fs.IsDir, hnode d (by simp), hmade.node d hne, hd] at hq
      cases hq

/-- An empty file system. -/
theorem ready_empty : Ready ⟨∅, ∅, []⟩ := by
  refine ⟨fun p hp => ?_, rfl⟩
  rcases eq_or_ne p [] with rfl | hne
  · rfl
  · rw [Fs.node, if_neg hne] at hp
    exact absurd rfl hp

/-- Nothing of another kind is in the way of the file of a task. -/
structure Accepts (client : Fs) (taskid : ℕ) (file : Str) : Prop where
  ready : Ready client
  noFile : ∀ data, client.node (taskDir client taskid) ≠ some (.file data)
  noDir : ¬ client.IsDir (taskDir client taskid ++ [file])

theorem Ready.accepts {taskid : ℕ} (h : Ready client)
    (hnew : client.node (taskDir client taskid) = none) (file : Str) :
    Accepts client taskid file := by
  refine ⟨h, fun data => ?_, ?_⟩
  · simp [hnew]
  · simp [Fs.IsDir, h.wellFormed.node_below hnew]

theorem Accepts.exists_mkdirAll {taskid : ℕ} {file : Str} (h : Accepts client taskid file) :
    ∃ fs, client.mkdirAll (taskPath taskid) = some fs := by
  rw [mkdirAll_taskPath]
  split
  · exact ⟨_, rfl⟩
  · rename_i data hfile
    exact absurd hfile (h.noFile data)
  · exact ⟨_, rfl⟩

/-- The file is written if its name is sound. -/
theorem Accepts.respDispose {taskid : ℕ} {key : Str × Str}
    (h : Accepts client taskid (engineFile key.1 key.2)) (hsame : SamePath dtsrc)
    (htaskid : dtsrc.master.taskid.toNat = taskid) (hattr : dtsrc.master.engineattr = key)
    (hid : key.1 ≠ []) (hname : key.2 ≠ []) (hbinary : dtsrc.master.binary ≠ [])
    (hcid : Clean key.1) (hcname : Clean key.2) (names : List (Str × Str)) :
    ∃ names' client', Computation.respDispose names client dtsrc = some (names', client') ∧
      ∃ content ∈ binaries dtsrc,
        client'.node (taskDir client taskid ++ [engineFile key.1 key.2]) =
          some (.file content) := by
  subst htaskid hattr
  obtain ⟨fs, hmk⟩ := h.exists_mkdirAll
  have hmade := h.ready.made hmk
  have hclean := clean_engineFile hcid hcname
  have hr := Fs.resolve_child hmade.resolve_taskPre hmade.isDir (notMem_taskPre _) hclean.1
    hclean.2 (plain_engineFile _ _)
  rw [← taskPath_append] at hr
  have hnot : ¬ fs.IsDir (taskDir client dtsrc.master.taskid.toNat ++
      [engineFile dtsrc.master.engineattr.1 dtsrc.master.engineattr.2]) := by
    rw [Fs.IsDir, hmade.node _ (by simp)]
    exact h.noDir
  have hwrite := Fs.writeFile_of_resolve hr hnot dtsrc.master.binary
  obtain ⟨p, hr', -, hwritten⟩ := hmade.written hwrite
  obtain ⟨fs', hdeps⟩ := hwritten.exists_depsDispose hclean.1 hsame
  obtain ⟨content, hmem, hw, -⟩ := hwritten.depsDispose hsame hdeps
  obtain rfl := Option.some.inj (hr.symm.trans hr')
  refine ⟨names ++ [dtsrc.master.engineattr], fs', ?_, content, hmem, hw.node⟩
  have hfile : lit "JXTDENGINE_" ++ dtsrc.master.engineattr.1 ++ lit "_" ++
      dtsrc.master.engineattr.2 ++ lit ".so" =
        engineFile dtsrc.master.engineattr.1 dtsrc.master.engineattr.2 := rfl
  unfold Computation.respDispose
  dsimp only
  rw [if_neg (by simp [hid, hname, hbinary]), hmk, hfile]
  dsimp only
  rw [hwrite]
  dsimp only
  rw [taskPath_eq, hdeps]

end Jxtd.Computation
