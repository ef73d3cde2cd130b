import Jxtd.Lib.Posix

/-!
# Files and directories by path

`std::filesystem::create_directories`, `std::filesystem::remove_all`, and a file that is opened with
`std::ofstream`, written and closed.

* `WellFormed`: every node is in a directory.
* `mkdirAll`, `removeAll`, `writeFile`: the operations.
* **`walk_end`**: a path leads to a directory or to an entry of one.
* `mkdirAll_of_isDir`, `mkdirAll_file`: nothing is created where everything is there.
-/

namespace Lib.Posix.Fs

/-- Every node is in a directory. -/
def WellFormed (fs : Fs) : Prop := ∀ p, fs.node p ≠ none → fs.IsDir p.dropLast

/-- Walk over names and make a directory of each that is missing. -/
def mkdirWalk : Fs → Path → List Str → Option Fs
  | fs, _, [] => some fs
  | fs, cur, c :: cs =>
    if c = [] ∨ c = lit "." then mkdirWalk fs cur cs
    else if c = lit ".." then mkdirWalk fs cur.dropLast cs
    else
      match fs.node (cur ++ [c]) with
      | some .dir => mkdirWalk fs (cur ++ [c]) cs
      | some (.file _) => none
      | none => mkdirWalk (fs.set (cur ++ [c]) .dir) (cur ++ [c]) cs

/-- `create_directories`; nothing for the exception that is thrown where a file is in the way. -/
def mkdirAll (fs : Fs) (s : Str) : Option Fs :=
  if cstr s = [] then none else mkdirWalk fs (fs.start (cstr s)) (components (cstr s))

/-- `remove_all`: what a path stands for, with everything below it; nothing if it is not there. -/
def removeAll (fs : Fs) (s : Str) : Fs :=
  match fs.resolve s with
  | none => fs
  | some p => (fs.nodes.keys.filter fun q => p.isPrefixOf q).foldl del fs

/-- The file is opened for writing and truncated, written and closed; nothing if it cannot be
opened. -/
def writeFile (fs : Fs) (s data : Str) : Option Fs :=
  match fs.resolve s with
  | none => none
  | some p => if fs.IsDir p then none else some (fs.set p (.file data))

variable {fs : Fs} {cur p : Path} {cs : List Str}

theorem writeFile_of_resolve {s : Str} (hr : fs.resolve s = some p) (hp : ¬ fs.IsDir p)
    (data : Str) : fs.writeFile s data = some (fs.set p (.file data)) := by
  rw [writeFile, hr]
  exact if_neg hp

theorem of_writeFile {fs' : Fs} {s data : Str} (h : fs.writeFile s data = some fs') :
    ∃ p, fs.resolve s = some p ∧ ¬ fs.IsDir p ∧ fs' = fs.set p (.file data) := by
  unfold writeFile at h
  split at h
  · cases h
  · rename_i p hp
    split_ifs at h with hd
    exact ⟨p, hp, hd, (Option.some.inj h).symm⟩

theorem cwd_mkdirWalk {fs' : Fs} (h : fs.mkdirWalk cur cs = some fs') : fs'.cwd = fs.cwd := by
  induction cs generalizing fs cur with
  | nil =>
    cases h
    rfl
  | cons c cs ih =>
    rw [mkdirWalk] at h
    split_ifs at h
    · exact ih h
    · exact ih h
    · split at h
      · exact ih h
      · cases h
      · have hcwd := ih h
        exact hcwd

theorem cwd_mkdirAll {fs' : Fs} {s : Str} (h : fs.mkdirAll s = some fs') : fs'.cwd = fs.cwd := by
  unfold mkdirAll at h
  split_ifs at h
  exact cwd_mkdirWalk h

theorem cwd_writeFile {fs' : Fs} {s data : Str} (h : fs.writeFile s data = some fs') :
    fs'.cwd = fs.cwd := by
  obtain ⟨p, -, -, rfl⟩ := of_writeFile h
  rfl

/-! ## Deleting a directory -/

theorem node_foldl_del {ps : List Path} {q : Path} (h : q ∉ ps) :
    (ps.foldl del fs).node q = fs.node q := by
  induction ps generalizing fs with
  | nil => rfl
  | cons p ps ih =>
    rw [List.mem_cons, not_or] at h
    rw [List.foldl_cons, ih h.2, node_del_ne fs h.1]

theorem node_foldl_del_mem {ps : List Path} {q : Path} (h : q ∈ ps) (hq : q ≠ []) :
    (ps.foldl del fs).node q = none := by
  induction ps generalizing fs with
  | nil => cases h
  | cons p ps ih =>
    by_cases hps : q ∈ ps
    · exact ih hps
    · obtain rfl := (List.mem_cons.mp h).resolve_right hps
      rw [List.foldl_cons, node_foldl_del hps, node_del fs hq]

/-- Where the paths with a property are deleted. -/
theorem node_foldl_del_filter (fs : Fs) (f : Path → Bool) {q : Path} (hq : q ≠ []) :
    ((fs.nodes.keys.filter f).foldl del fs).node q = if f q then none else fs.node q := by
  by_cases hmem : q ∈ fs.nodes.keys.filter f
  · rw [node_foldl_del_mem hmem hq, if_pos (List.mem_filter.mp hmem).2]
  · rw [node_foldl_del hmem]
    split_ifs with hf
    · -- a path with the property that is not deleted was not there
      have hkey : q ∉ fs.nodes := fun hkey =>
        hmem (List.mem_filter.mpr ⟨AList.mem_keys.mpr hkey, hf⟩)
      rw [node, if_neg hq]
      exact AList.lookup_eq_none.mpr hkey
    · rfl

theorem cwd_foldl_del (ps : List Path) : (ps.foldl del fs).cwd = fs.cwd := by
  induction ps generalizing fs with
  | nil => rfl
  | cons p ps ih => exact ih

/-- What is not below the path stays. -/
theorem node_removeAll {s : Str} {q : Path} (h : ∀ p, fs.resolve s = some p → ¬ p <+: q) :
    (fs.removeAll s).node q = fs.node q := by
  unfold removeAll
  split
  · rfl
  · rename_i p hp
    refine node_foldl_del fun hq => h p hp ?_
    exact List.isPrefixOf_iff_prefix.mp (List.mem_filter.mp hq).2

theorem cwd_removeAll (fs : Fs) (s : Str) : (fs.removeAll s).cwd = fs.cwd := by
  unfold removeAll
  split
  · rfl
  · exact cwd_foldl_del _

theorem WellFormed.removeAll (hwf : fs.WellFormed) (s : Str) : (fs.removeAll s).WellFormed := by
  unfold Fs.removeAll
  split
  · exact hwf
  · rename_i p hp
    intro q hq
    by_cases hq0 : q = []
    · rw [hq0]
      rfl
    · rw [node_foldl_del_filter fs _ hq0] at hq
      split_ifs at hq with hbelow
      · exact absurd rfl hq
      · -- a node that is left is not below the path, and neither is its directory
        have hup := hwf q hq
        rw [IsDir, node_foldl_del]
        · exact hup
        · intro hmem
          have hpre := List.isPrefixOf_iff_prefix.mp (List.mem_filter.mp hmem).2
          exact hbelow (List.isPrefixOf_iff_prefix.mpr (hpre.trans (List.dropLast_prefix q)))

/-! ## Where a path leads -/

theorem isDir_nil (fs : Fs) : fs.IsDir [] := rfl

theorem WellFormed.dropLast (hwf : fs.WellFormed) (hcur : fs.IsDir cur) : fs.IsDir cur.dropLast :=
  hwf cur (by rw [hcur]; exact Option.some_ne_none _)

theorem WellFormed.node_below (hwf : fs.WellFormed) (hp : fs.node p = none) (c : Str) :
    fs.node (p ++ [c]) = none := by
  by_contra hsome
  have hup := hwf _ hsome
  rw [List.dropLast_concat, IsDir, hp] at hup
  cases hup

/-- **A path leads to a directory or to an entry of one.** -/
theorem walk_end (hwf : fs.WellFormed) (hcur : fs.IsDir cur) (h : fs.walk cur cs = some p) :
    fs.IsDir p ∨ ∃ q, ∃ c ∈ cs, p = q ++ [c] ∧ fs.IsDir q := by
  induction cs generalizing cur with
  | nil =>
    cases h
    exact .inl hcur
  | cons c cs ih =>
    have hlift (h : fs.IsDir p ∨ ∃ q, ∃ c ∈ cs, p = q ++ [c] ∧ fs.IsDir q) :
        fs.IsDir p ∨ ∃ q, ∃ c' ∈ c :: cs, p = q ++ [c'] ∧ fs.IsDir q := by
      rcases h with h | ⟨q, c', hc', hq⟩
      · exact .inl h
      · exact .inr ⟨q, c', List.mem_cons_of_mem _ hc', hq⟩
    rw [walk, if_pos hcur] at h
    split_ifs at h
    · exact hlift (ih hcur h)
    · exact hlift (ih (hwf.dropLast hcur) h)
    · cases cs with
      | nil =>
        cases h
        exact .inr ⟨cur, c, List.mem_cons_self, rfl, hcur⟩
      | cons c' cs =>
        by_cases hd : fs.IsDir (cur ++ [c])
        · exact hlift (ih hd h)
        · rw [walk, if_neg hd] at h
          cases h

/-- What is walked on from is a directory. -/
theorem isDir_of_walk (h : fs.walk cur cs = some p) (hp : fs.IsDir p) : fs.IsDir cur := by
  cases cs with
  | nil =>
    cases h
    exact hp
  | cons c cs =>
    rw [walk] at h
    split_ifs at h <;> assumption

/-! ## Nothing to create -/

theorem mkdirWalk_of_isDir (h : fs.walk cur cs = some p) (hp : fs.IsDir p) :
    fs.mkdirWalk cur cs = some fs := by
  induction cs generalizing cur with
  | nil => rfl
  | cons c cs ih =>
    have hcur := isDir_of_walk h hp
    rw [walk, if_pos hcur] at h
    rw [mkdirWalk]
    split_ifs at h ⊢
    · exact ih h
    · exact ih h
    · rw [show fs.node (cur ++ [c]) = some .dir from isDir_of_walk h hp]
      exact ih h

/-- A path that stands for a directory. -/
theorem mkdirAll_of_isDir {s : Str} (h : fs.resolve s = some p) (hp : fs.IsDir p) :
    fs.mkdirAll s = some fs := by
  unfold resolve at h
  unfold mkdirAll
  split_ifs at h ⊢
  exact mkdirWalk_of_isDir h hp

theorem mkdirWalk_file (hwf : fs.WellFormed) {data : Str} (h : fs.walk cur cs = some p)
    (hp : fs.node p = some (.file data)) (hcur : fs.IsDir cur) : fs.mkdirWalk cur cs = none := by
  induction cs generalizing cur with
  | nil =>
    cases h
    rw [IsDir, hp] at hcur
    cases hcur
  | cons c cs ih =>
    rw [walk, if_pos hcur] at h
    rw [mkdirWalk]
    split_ifs at h ⊢
    · exact ih h hcur
    · exact ih h (hwf.dropLast hcur)
    · cases cs with
      | nil =>
        cases h
        rw [hp]
      | cons c' cs =>
        by_cases hd : fs.IsDir (cur ++ [c])
        · rw [show fs.node (cur ++ [c]) = some .dir from hd]
          exact ih h hd
        · rw [walk, if_neg hd] at h
          cases h

theorem isDir_start (hcwd : fs.IsDir fs.cwd) (s : Str) : fs.IsDir (fs.start s) := by
  unfold start
  split_ifs
  · exact fs.isDir_nil
  · exact hcwd

/-- A path that stands for a file is in the way. -/
theorem mkdirAll_file (hwf : fs.WellFormed) (hcwd : fs.IsDir fs.cwd) {s data : Str}
    (h : fs.resolve s = some p) (hp : fs.node p = some (.file data)) : fs.mkdirAll s = none := by
  unfold resolve at h
  unfold mkdirAll
  split_ifs at h ⊢
  exact mkdirWalk_file hwf h hp (isDir_start hcwd _)

/-! ## New nodes -/

/-- A new node, or a file in place of a file, in a directory. -/
theorem WellFormed.set (hwf : fs.WellFormed) {n : Node} (hd : fs.IsDir p.dropLast)
    (hp : ¬ fs.IsDir p) : (fs.set p n).WellFormed := by
  have hkeep {r : Path} (hr : fs.IsDir r) : (fs.set p n).IsDir r := by
    rw [IsDir, node_set_ne]
    · exact hr
    · rintro rfl
      exact hp hr
  intro r hr
  by_cases h : r = p
  · rw [h]
    exact hkeep hd
  · rw [node_set_ne _ h] at hr
    exact hkeep (hwf r hr)

/-! ## Paths below a directory -/

theorem cstr_append {s : Str} (h : 0 ∉ s) (t : Str) : cstr (s ++ t) = s ++ cstr t :=
  List.takeWhile_append_of_pos fun _ hb => decide_eq_true fun h0 => h (h0 ▸ hb)

theorem cstr_append_of_mem {s : Str} (h : 0 ∈ s) (t : Str) : cstr (s ++ t) = cstr s := by
  unfold cstr
  rw [List.takeWhile_append, if_neg]
  intro hlen
  refine notMem_cstr s ?_
  rw [cstr, List.IsPrefix.eq_of_length (List.takeWhile_prefix _) hlen]
  exact h

theorem cstr_cons_slash (s : Str) : cstr (slash :: s) = slash :: cstr s :=
  List.takeWhile_cons_of_pos (by decide)

/-- A path below a directory is walked from there. -/
theorem resolve_below {s : Str} (hs : 0 ∉ s) (h : fs.resolve s = some p) (t : Str) :
    fs.resolve (s ++ slash :: t) = fs.walk p (components (cstr t)) := by
  have hne : s ≠ [] := by
    rintro rfl
    cases h
  rw [resolve, cstr_of_notMem hs, if_neg hne] at h
  have hstart : fs.start (s ++ slash :: cstr t) = fs.start s := by
    rw [start, start, List.head?_append_of_ne_nil s hne]
  rw [resolve, cstr_append hs, cstr_cons_slash, if_neg (by simp), hstart, components_append,
    walk_append, h, Option.bind_some]

/-- What is above the last slash of a path is a directory, if the path can be walked. -/
theorem walk_above {s t : Str} (ht : slash ∉ t)
    (h : fs.walk cur (components (s ++ slash :: t)) = some p) :
    ∃ q, fs.walk cur (components s) = some q ∧ fs.IsDir q := by
  rw [components_append, components_of_notMem ht, walk_append] at h
  obtain ⟨q, hq, hlast⟩ := Option.bind_eq_some_iff.mp h
  refine ⟨q, hq, ?_⟩
  rw [walk] at hlast
  split_ifs at hlast <;> assumption

end Lib.Posix.Fs
