import Jxtd.Lib.Directory

/-!
# The file functions of Rust

`std::fs::create_dir_all`, `std::fs::remove_dir_all` and `Path::exists`. The first two give whether
they returned `Ok`, with the tree they leave. A path with a zero byte is an error.

* `createDirAll`, `removeDirAll`, `pathExists`: the functions.
* `node_clear`: a directory that is emptied.
* **`removeDirAll_cases`**: what the removal of a directory leaves.
* `isDir_createDirs`, `grows_createDirs`: a directory is made, and what is there stays.
-/

namespace Lib.Posix.Fs

/-- Walk over names and make a directory of each that is missing, until a file is in the way. -/
def createDirs : Fs → Path → List Str → Bool × Fs
  | fs, _, [] => (true, fs)
  | fs, cur, c :: cs =>
    if c = [] ∨ c = lit "." then createDirs fs cur cs
    else if c = lit ".." then createDirs fs cur.dropLast cs
    else
      match fs.node (cur ++ [c]) with
      | some .dir => createDirs fs (cur ++ [c]) cs
      | some (.file _) => (false, fs)
      | none => createDirs (fs.set (cur ++ [c]) .dir) (cur ++ [c]) cs

/-- `create_dir_all`; nothing is to be made for the empty path. -/
def createDirAll (fs : Fs) (s : Str) : Bool × Fs :=
  if s = [] then (true, fs)
  else if 0 ∈ s ∨ ¬ fs.IsDir (fs.start s) then (false, fs)
  else fs.createDirs (fs.start s) (components s)

/-- Everything below a path is deleted. -/
def clear (fs : Fs) (p : Path) : Fs :=
  (fs.nodes.keys.filter fun q => p.isPrefixOf q && q ≠ p).foldl del fs

/-- The last name of a path. -/
def lastName (s : Str) : Str := ((components s).filter fun c => c ≠ []).getLastD []

/-- `rmdir` of an empty directory; dots and the root are refused. -/
def rmdir (fs : Fs) (s : Str) : Bool × Fs :=
  match fs.resolve s with
  | none => (false, fs)
  | some p =>
    if Plain (lastName s) ∧ fs.IsDir p ∧ fs.emptyDir p = true then (true, fs.del p)
    else (false, fs)

/-- `remove_dir_all`: the directory is emptied, then its path is followed again to remove it. -/
def removeDirAll (fs : Fs) (s : Str) : Bool × Fs :=
  if 0 ∈ s then (false, fs)
  else
    match fs.resolve s with
    | none => (false, fs)
    | some p => if fs.IsDir p then (fs.clear p).rmdir s else (false, fs)

/-- `Path::exists` -/
def pathExists (fs : Fs) (s : Str) : Bool :=
  decide (0 ∉ s) && ((fs.resolve s).bind fs.node).isSome

variable {fs : Fs} {cur p q : Path} {cs : List Str} {s c : Str}

/-! ## Making directories -/

theorem grows_createDirs (fs : Fs) (cur : Path) (cs : List Str) :
    fs.Grows (fs.createDirs cur cs).2 := by
  induction cs generalizing fs cur with
  | nil => exact .refl fs
  | cons c cs ih =>
    rw [createDirs]
    split_ifs
    · exact ih fs cur
    · exact ih fs cur.dropLast
    · split
      · exact ih fs _
      · exact .refl fs
      · rename_i hnone
        exact (grows_set hnone .dir).trans (ih _ _)

theorem grows_createDirAll (fs : Fs) (s : Str) : fs.Grows (fs.createDirAll s).2 := by
  unfold createDirAll
  split_ifs
  · exact .refl fs
  · exact .refl fs
  · exact grows_createDirs fs _ _

/-- The last name becomes a directory. -/
theorem isDir_createDirs (hc : Plain c) (h : (fs.createDirs cur (cs ++ [c])).1 = true) :
    (fs.createDirs cur (cs ++ [c])).2.IsDir (lexical cur cs ++ [c]) := by
  induction cs generalizing fs cur with
  | nil =>
    have hdot : ¬ (c = [] ∨ c = lit ".") := not_or.mpr ⟨hc.1, hc.2.1⟩
    rw [List.nil_append, createDirs, if_neg hdot, if_neg hc.2.2] at h ⊢
    rw [lexical]
    split at h
    · rename_i hdir
      exact hdir
    · cases h
    · exact node_set fs (by simp) .dir
  | cons b cs ih =>
    rw [List.cons_append, createDirs] at h ⊢
    rw [lexical]
    split_ifs at h ⊢
    · exact ih h
    · exact ih h
    · split at h
      · exact ih h
      · cases h
      · exact ih h

theorem WellFormed.createDirs (hwf : fs.WellFormed) (hcur : fs.IsDir cur) :
    (fs.createDirs cur cs).2.WellFormed := by
  induction cs generalizing fs cur with
  | nil => exact hwf
  | cons c cs ih =>
    rw [Fs.createDirs]
    split_ifs
    · exact ih hwf hcur
    · exact ih hwf (hwf.dropLast hcur)
    · split
      · rename_i hdir
        exact ih hwf hdir
      · exact hwf
      · rename_i hnone
        refine ih (hwf.set (by rwa [List.dropLast_concat]) ?_) (node_set fs (by simp) .dir)
        rw [IsDir, hnone]
        exact (Option.some_ne_none _).symm

theorem WellFormed.createDirAll (hwf : fs.WellFormed) (s : Str) :
    (fs.createDirAll s).2.WellFormed := by
  unfold Fs.createDirAll
  split_ifs with hnil h
  · exact hwf
  · exact hwf
  · exact hwf.createDirs (not_not.mp (not_or.mp h).2)

/-! ## Emptying a directory -/

/-- **What is below the directory is gone**, and everything else is as it was. -/
theorem node_clear (fs : Fs) (p q : Path) :
    (fs.clear p).node q = if p <+: q ∧ q ≠ p then none else fs.node q := by
  by_cases hq : q = []
  · have hkeep : ¬ (p <+: q ∧ q ≠ p) := by
      rintro ⟨hpre, hne⟩
      exact hne (hq.trans (List.prefix_nil.mp (hq ▸ hpre)).symm)
    rw [if_neg hkeep, hq]
    rfl
  · rw [clear, node_foldl_del_filter fs _ hq]
    simp

@[simp] theorem cwd_clear (fs : Fs) (p : Path) : (fs.clear p).cwd = fs.cwd := cwd_foldl_del _

theorem node_clear_self (fs : Fs) (p : Path) : (fs.clear p).node p = fs.node p := by
  rw [node_clear, if_neg fun h => h.2 rfl]

theorem keepsDirs_of_clear (fs : Fs) (p : Path) : (fs.clear p).KeepsDirs fs := by
  refine ⟨(cwd_clear fs p).symm, fun q hq => ?_⟩
  rw [IsDir, node_clear] at hq
  split_ifs at hq
  exact hq

theorem emptyDir_clear (fs : Fs) (p : Path) : (fs.clear p).emptyDir p = true := by
  rw [emptyDir, List.all_eq_true]
  intro q hq
  by_cases hbelow : p <+: q ∧ q ≠ p
  · have hnil : q ≠ [] := by
      rintro rfl
      exact hbelow.2 (List.prefix_nil.mp hbelow.1).symm
    have hnode := node_clear fs p q
    rw [if_pos hbelow, node, if_neg hnil, AList.lookup_eq_none] at hnode
    exact absurd (AList.mem_keys.mp hq) hnode
  · by_cases hpre : p <+: q
    · have hqp : q = p := by_contra fun hne => hbelow ⟨hpre, hne⟩
      simp [hqp]
    · have hpos : p.isPrefixOf q = false := by
        rw [← Bool.not_eq_true, List.isPrefixOf_iff_prefix]
        exact hpre
      simp [hpos]

theorem WellFormed.clear (hwf : fs.WellFormed) (p : Path) : (fs.clear p).WellFormed := by
  intro q hq
  rw [node_clear] at hq
  split_ifs at hq with hbelow
  · exact absurd rfl hq
  have hup := hwf q hq
  rw [IsDir, node_clear, if_neg]
  · exact hup
  · rintro ⟨hpre, hne⟩
    have hup' := hpre.trans (List.dropLast_prefix q)
    refine hbelow ⟨hup', fun hqp => hne ?_⟩
    exact ((List.dropLast_prefix q).eq_of_length_le (hqp ▸ hpre.length_le)).trans hqp

/-! ## Removing a directory -/

theorem node_clear_del (fs : Fs) (hp : p ≠ []) (q : Path) :
    ((fs.clear p).del p).node q = if p <+: q then none else fs.node q := by
  by_cases hqp : q = p
  · rw [hqp, node_del _ hp, if_pos List.prefix_rfl]
  · rw [node_del_ne _ hqp, node_clear]
    simp only [hqp, ne_eq, not_false_eq_true, and_true]

/-- **What the removal of a directory leaves.** It fails without an effect, or it empties the
directory and fails because its path leads nowhere any more, or it removes the directory. -/
theorem removeDirAll_cases (fs : Fs) (hs : Plain (lastName s)) :
    fs.removeDirAll s = (false, fs) ∧ (∀ p, fs.resolve s = some p → 0 ∈ s ∨ ¬ fs.IsDir p) ∨
    ∃ p, fs.resolve s = some p ∧ fs.IsDir p ∧
      ((fs.clear p).resolve s = none ∧ fs.removeDirAll s = (false, fs.clear p) ∨
        (fs.clear p).resolve s = some p ∧ fs.removeDirAll s = (true, (fs.clear p).del p)) := by
  unfold removeDirAll
  split_ifs with h₀
  · exact .inl ⟨rfl, fun _ _ => .inl h₀⟩
  · cases hr : fs.resolve s with
    | none => exact .inl ⟨rfl, fun _ h => by cases h⟩
    | some p =>
      dsimp only
      split_ifs with hd
      · refine .inr ⟨p, rfl, hd, ?_⟩
        cases hclear : (fs.clear p).resolve s with
        | none => exact .inl ⟨rfl, by rw [rmdir, hclear]⟩
        | some q =>
          -- the path leads to the same place as before
          have hq := (keepsDirs_of_clear fs p).resolve hclear
          rw [hr] at hq
          cases hq
          refine .inr ⟨rfl, ?_⟩
          rw [rmdir, hclear]
          exact if_pos ⟨hs, (node_clear_self fs p).trans hd, emptyDir_clear fs p⟩
      · refine .inl ⟨rfl, fun q hq => .inr ?_⟩
        cases hq
        exact hd

theorem WellFormed.rmdir (hwf : fs.WellFormed) (s : Str) : (fs.rmdir s).2.WellFormed := by
  unfold Fs.rmdir
  split
  · exact hwf
  · rename_i p hr
    split_ifs with hdir
    · intro q hq
      by_cases hnil : q = []
      · rw [hnil]
        rfl
      · by_cases hqp : q = p
        · rw [hqp, node_del fs (hqp ▸ hnil)] at hq
          exact absurd rfl hq
        · rw [node_del_ne fs hqp] at hq
          have hup := hwf q hq
          -- an empty directory has nothing right below it
          have hne : q.dropLast ≠ p ∨ p = [] := by
            by_contra hbelow
            obtain ⟨hlast, hp⟩ := not_or.mp hbelow
            have hkey : q ∈ fs.nodes.keys := by
              rw [node, if_neg hnil] at hq
              exact AList.mem_keys.mp (AList.lookup_isSome.mp (Option.isSome_iff_ne_none.mpr hq))
            have hall := List.all_eq_true.mp hdir.2.2 q hkey
            have hpre : p.isPrefixOf q = true :=
              List.isPrefixOf_iff_prefix.mpr (not_not.mp hlast ▸ List.dropLast_prefix q)
            simp [hpre, hqp] at hall
          rcases hne with hne | hp
          · rwa [IsDir, node_del_ne fs hne]
          · rcases eq_or_ne q.dropLast p with hlast | hne
            · rw [hlast, hp]
              rfl
            · rwa [IsDir, node_del_ne fs hne]
    · exact hwf

theorem WellFormed.removeDirAll (hwf : fs.WellFormed) (s : Str) :
    (fs.removeDirAll s).2.WellFormed := by
  unfold Fs.removeDirAll
  split_ifs
  · exact hwf
  · split
    · exact hwf
    · split_ifs
      · exact (hwf.clear _).rmdir s
      · exact hwf

end Lib.Posix.Fs
