import Jxtd.Lib.PathNames

/-!
# The files of one directory

`std::filesystem::create_directory` and `std::filesystem::remove`, and which files are right below a
path.

* `createDirectory`, `remove`: the operations.
* `Holds`: a file right below what a path stands for.
* **`holds_set`**, **`holds_del`**, `holds_createDirectory`, `holds_removeAll`: what becomes of
  these files.
-/

namespace Lib.Posix.Fs

/-- `create_directory`; a directory that is there is fine, and anything else is an exception. -/
def createDirectory (fs : Fs) (s : Str) : Bool × Fs :=
  match fs.resolve (stripSlashes (cstr s)) with
  | none => (false, fs)
  | some p =>
    match fs.node p with
    | none => (true, fs.set p .dir)
    | some .dir => (true, fs)
    | some (.file _) => (false, fs)

/-- Nothing is below a path. -/
def emptyDir (fs : Fs) (p : Path) : Bool := fs.nodes.keys.all fun q => !p.isPrefixOf q || q = p

/-- `remove`; a path that leads nowhere is fine, and a directory that is not empty an exception. -/
def remove (fs : Fs) (s : Str) : Bool × Fs :=
  match fs.resolve s with
  | none => (true, fs)
  | some p =>
    match fs.node p with
    | none => (true, fs)
    | some (.file _) => (true, fs.del p)
    | some .dir => if fs.emptyDir p then (true, fs.del p) else (false, fs)

/-- A file right below what a path stands for. -/
def Holds (fs : Fs) (s f : Str) : Prop :=
  ∃ p data, fs.resolve s = some p ∧ fs.node (p ++ [f]) = some (.file data)

variable {fs : Fs} {s c f : Str} {p : Path}

theorem holds_iff (h : fs.resolve s = some p) :
    fs.Holds s f ↔ ∃ data, fs.node (p ++ [f]) = some (.file data) := by
  constructor
  · rintro ⟨q, data, hq, hnode⟩
    rw [h] at hq
    cases hq
    exact ⟨data, hnode⟩
  · rintro ⟨data, hnode⟩
    exact ⟨p, data, h, hnode⟩

/-! ## Paths with a slash at the end -/

theorem resolve_append_of_mem (h : 0 ∈ s) (t : Str) : fs.resolve (s ++ t) = fs.resolve s := by
  rw [resolve, resolve, cstr_append_of_mem h]

theorem resolve_of_slash (hs : 0 ∉ s) (hne : s ≠ []) (h : fs.resolve (s ++ [slash]) = some p) :
    fs.resolve s = some p := by
  have h₀ : 0 ∉ s ++ [slash] := by simp [hs, slash]
  rw [resolve, cstr_of_notMem h₀, if_neg (by simp), components_append, walk_append,
    start, List.head?_append_of_ne_nil s hne] at h
  obtain ⟨q, hq, hlast⟩ := Option.bind_eq_some_iff.mp h
  rw [components, walk] at hlast
  split_ifs at hlast with hd hempty
  · cases hlast
    rw [resolve, cstr_of_notMem hs, if_neg hne]
    exact hq
  · simp at hempty
  · simp at hempty

theorem walk_slashes {cur : Path} (h : fs.walk cur (components s) = some p) (hd : fs.IsDir p)
    (n : ℕ) : fs.walk cur (components (s ++ List.replicate n slash)) = some p := by
  induction n with
  | zero =>
    rw [List.replicate_zero, List.append_nil]
    exact h
  | succ n ih =>
    rw [List.replicate_succ', ← List.append_assoc, components_append, walk_append, ih,
      Option.bind_some, components, walk, if_pos hd, if_pos (.inl rfl), walk]

/-- A directory is found with slashes at the end of its path. -/
theorem resolve_of_stripSlashes (h : fs.resolve (stripSlashes (cstr s)) = some p)
    (hd : fs.IsDir p) : fs.resolve s = some p := by
  obtain ⟨n, hn⟩ := exists_stripSlashes (cstr s)
  have h₀ : 0 ∉ stripSlashes (cstr s) := fun hmem =>
    notMem_cstr s (hn ▸ List.mem_append_left _ hmem)
  rw [resolve, cstr_of_notMem h₀] at h
  split_ifs at h with hne
  have hs : cstr s ≠ [] := fun hnil => by
    rw [hnil] at hne
    exact hne rfl
  have hwalk := walk_slashes h hd n
  rw [← hn] at hwalk
  have hstart : fs.start (cstr s) = fs.start (stripSlashes (cstr s)) := by
    conv_lhs => rw [hn]
    rw [start, start, List.head?_append_of_ne_nil _ hne]
  rw [resolve, if_neg hs, hstart]
  exact hwalk

theorem isDir_start_of_resolve (h : fs.resolve s = some p) : fs.IsDir (fs.start (cstr s)) := by
  unfold resolve at h
  split_ifs at h
  cases hcs : components (cstr s) with
  | nil => exact absurd hcs (components_ne_nil _)
  | cons c cs =>
    rw [hcs] at h
    exact isDir_of_walk_cons h

/-! ## New directories -/

theorem createDirectory_true (h : (fs.createDirectory s).1 = true) :
    ∃ p, fs.resolve (stripSlashes (cstr s)) = some p ∧
      (fs.node p = none ∧ (fs.createDirectory s).2 = fs.set p .dir ∨
        fs.IsDir p ∧ (fs.createDirectory s).2 = fs) := by
  unfold createDirectory at h ⊢
  split at h
  · cases h
  · rename_i p hp
    refine ⟨p, hp, ?_⟩
    split at h
    · rename_i hnode
      exact .inl ⟨hnode, rfl⟩
    · rename_i hnode
      exact .inr ⟨hnode, rfl⟩
    · cases h

/-- **A directory that is created** is there. -/
theorem resolve_createDirectory (h : (fs.createDirectory s).1 = true) :
    ∃ p, (fs.createDirectory s).2.resolve s = some p ∧ (fs.createDirectory s).2.IsDir p := by
  obtain ⟨p, hr, ⟨hnode, hset⟩ | ⟨hd, hsame⟩⟩ := createDirectory_true h
  · have hd : (fs.set p .dir).IsDir p := node_set fs (ne_nil_of_node_none hnode) .dir
    rw [hset]
    exact ⟨p, resolve_of_stripSlashes ((grows_set hnode .dir).keepsDirs.resolve hr) hd, hd⟩
  · rw [hsame]
    exact ⟨p, resolve_of_stripSlashes hr hd, hd⟩

theorem WellFormed.createDirectory (hwf : fs.WellFormed) (s : Str) :
    (fs.createDirectory s).2.WellFormed := by
  unfold Fs.createDirectory
  split
  · exact hwf
  · rename_i p hr
    split
    · rename_i hnode
      have hstart := isDir_start_of_resolve hr
      have hdir : ¬ fs.IsDir p := by simp [IsDir, hnode]
      unfold resolve at hr
      split_ifs at hr
      exact hwf.set_walk hstart hr hdir _
    · exact hwf
    · exact hwf

theorem holds_createDirectory (hwf : fs.WellFormed) (h : (fs.createDirectory s).1 = true)
    (hf : (fs.createDirectory s).2.Holds s f) : fs.Holds s f := by
  obtain ⟨p, hr, ⟨hnode, hset⟩ | ⟨hd, hsame⟩⟩ := createDirectory_true h
  · rw [hset] at hf
    have hd : (fs.set p .dir).IsDir p := node_set fs (ne_nil_of_node_none hnode) .dir
    have hresolve := resolve_of_stripSlashes ((grows_set hnode .dir).keepsDirs.resolve hr) hd
    obtain ⟨data, hfile⟩ := (holds_iff hresolve).mp hf
    rw [node_set_ne _ (by simp), hwf.node_below hnode f] at hfile
    cases hfile
  · rwa [hsame] at hf

/-! ## Files that come and go -/

/-- **A new file** in a directory. -/
theorem holds_set (h : fs.resolve s = some p) (hc : ¬ fs.IsDir (p ++ [c])) (data : Str) :
    (fs.set (p ++ [c]) (.file data)).Holds s f ↔ f = c ∨ fs.Holds s f := by
  rw [holds_iff ((keepsDirs_set_file hc data).resolve h), holds_iff h]
  by_cases hf : f = c
  · subst hf
    rw [node_set fs (by simp)]
    exact ⟨fun _ => .inl rfl, fun _ => ⟨data, rfl⟩⟩
  · rw [node_set_ne _ (by simpa using hf)]
    exact ⟨.inr, fun hor => hor.resolve_left hf⟩

/-- **A file that is deleted** from a directory. -/
theorem holds_del (h : fs.resolve s = some p) (hc : ¬ fs.IsDir (p ++ [c])) :
    (fs.del (p ++ [c])).Holds s f ↔ f ≠ c ∧ fs.Holds s f := by
  rw [holds_iff ((keepsDirs_del hc).resolve h), holds_iff h]
  by_cases hf : f = c
  · subst hf
    rw [node_del fs (by simp)]
    exact ⟨fun ⟨_, hnone⟩ => (by cases hnone), fun hand => absurd rfl hand.1⟩
  · rw [node_del_ne _ (by simpa using hf)]
    exact ⟨fun hnode => ⟨hf, hnode⟩, And.right⟩

theorem remove_file {data : Str} (h : fs.resolve s = some p)
    (hp : fs.node p = some (.file data)) : fs.remove s = (true, fs.del p) := by
  unfold remove
  rw [h]
  simp only [hp]

theorem node_of_removeAll {q : Path} {n : Node} (h : (fs.removeAll s).node q = some n) :
    fs.node q = some n := by
  unfold removeAll at h
  split at h
  · exact h
  · by_cases hq : q = []
    · subst hq
      exact h
    · rw [node_foldl_del_filter fs _ hq] at h
      split_ifs at h
      exact h

theorem keepsDirs_of_removeAll (fs : Fs) (s : Str) : (fs.removeAll s).KeepsDirs fs :=
  ⟨(cwd_removeAll fs s).symm, fun _ => node_of_removeAll⟩

theorem holds_removeAll {t : Str} (h : (fs.removeAll t).Holds s f) : fs.Holds s f := by
  obtain ⟨p, data, hr, hnode⟩ := h
  exact ⟨p, data, (keepsDirs_of_removeAll fs t).resolve hr, node_of_removeAll hnode⟩

end Lib.Posix.Fs
