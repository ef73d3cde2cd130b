import Jxtd.Lib.Filesystem

/-!
# Where the names of a path lead

The place of a path is known from its names alone; whether the path can be walked depends on the
directories that are there.

* `lexical`, `place`: names are followed without looking at the file system.
* **`walk_eq_lexical`**: a path that can be walked leads there.
* `names`: the names that are no dots; `lexical_eq_append`, `walk_names` without `..`.
* `WellFormed.set_walk`, `WellFormed.unlink`, `WellFormed.mkdir`: the calls keep the tree well
  formed.
-/

namespace Lib.Posix

/-! ## The last slash -/

theorem findLastSlash_of_notMem {s : Str} (h : slash ∉ s) : findLastSlash s = none := by
  induction s with
  | nil => rfl
  | cons b bs ih =>
    rw [List.mem_cons, not_or] at h
    simp only [findLastSlash, ih h.2]
    exact if_neg (Ne.symm h.1)

theorem findLastSlash_append (b : Str) {c : Str} (hc : slash ∉ c) :
    findLastSlash (b ++ slash :: c) = some b.length := by
  induction b with
  | nil =>
    rw [List.nil_append, findLastSlash, findLastSlash_of_notMem hc]
    exact if_pos rfl
  | cons x xs ih =>
    rw [List.cons_append, findLastSlash, ih]
    rfl

theorem intercalate_components (s : Str) : [slash].intercalate (components s) = s := by
  induction s with
  | nil => rfl
  | cons b bs ih =>
    rw [components]
    split_ifs with hb
    · rw [List.intercalate_cons_of_ne_nil (components_ne_nil bs), ih, hb]
      rfl
    · cases hbs : components bs with
      | nil => exact absurd hbs (components_ne_nil bs)
      | cons c cs =>
        rw [hbs] at ih
        rw [← ih]
        exact List.intercalate_cons_cons_left

/-- Different paths have different names. -/
theorem components_injective : Function.Injective components := by
  intro s t h
  rw [← intercalate_components s, h, intercalate_components]

namespace Fs

variable {fs : Fs} {cur p q : Path} {cs : List Str}

/-! ## Following names -/

/-- The place where names lead, whatever is there. -/
def lexical : Path → List Str → Path
  | cur, [] => cur
  | cur, c :: cs =>
    if c = [] ∨ c = lit "." then lexical cur cs
    else if c = lit ".." then lexical cur.dropLast cs
    else lexical (cur ++ [c]) cs

theorem lexical_append (cur : Path) (xs ys : List Str) :
    lexical cur (xs ++ ys) = lexical (lexical cur xs) ys := by
  induction xs generalizing cur with
  | nil => rfl
  | cons x xs ih =>
    rw [List.cons_append, lexical, lexical]
    split_ifs
    · exact ih cur
    · exact ih cur.dropLast
    · exact ih (cur ++ [x])

/-- **A path that can be walked** leads to the place of its names. -/
theorem walk_eq_lexical (h : fs.walk cur cs = some p) : lexical cur cs = p := by
  induction cs generalizing cur with
  | nil =>
    cases h
    rfl
  | cons c cs ih =>
    rw [walk] at h
    rw [lexical]
    split_ifs at h ⊢
    · exact ih h
    · exact ih h
    · exact ih h

/-- The place of a path. -/
def target (fs : Fs) (s : Str) : Path := lexical (fs.start (cstr s)) (components (cstr s))

/-- The place of a path, from a working directory. -/
def place (cwd : Path) (s : Str) : Path :=
  lexical (if (cstr s).head? = some slash then [] else cwd) (components (cstr s))

theorem resolve_eq_target {s : Str} (h : fs.resolve s = some p) : fs.target s = p := by
  unfold resolve at h
  split_ifs at h
  exact walk_eq_lexical h

/-- **What a path stands for** is at its place. -/
theorem resolve_eq_place {s : Str} (h : fs.resolve s = some p) : place fs.cwd s = p :=
  resolve_eq_target h

/-- Slashes at the end do not change the place. -/
theorem lexical_append_slashes (cur : Path) (s : Str) (n : ℕ) :
    lexical cur (components (s ++ List.replicate n slash)) = lexical cur (components s) := by
  induction n with
  | zero => rw [List.replicate_zero, List.append_nil]
  | succ n ih =>
    rw [List.replicate_succ', ← List.append_assoc, components_append, lexical_append, ih]
    rfl

theorem exists_stripSlashes (s : Str) :
    ∃ n, s = stripSlashes s ++ List.replicate n slash := by
  obtain ⟨n, hn⟩ : ∃ n, s.reverse.takeWhile (fun b => b = slash) = List.replicate n slash :=
    ⟨_, List.eq_replicate_iff.mpr ⟨rfl, fun b hb => by simpa using List.mem_takeWhile_imp hb⟩⟩
  refine ⟨n, ?_⟩
  have hsplit := List.takeWhile_append_dropWhile (p := fun b => decide (b = slash)) (l := s.reverse)
  rw [hn] at hsplit
  have hrev := congrArg List.reverse hsplit
  rw [List.reverse_append, List.reverse_replicate, List.reverse_reverse] at hrev
  exact hrev.symm

/-- A new directory is at the place of its path. -/
theorem resolve_stripSlashes {s : Str} (h : fs.resolve (stripSlashes (cstr s)) = some p) :
    fs.target s = p := by
  obtain ⟨n, hn⟩ := exists_stripSlashes (cstr s)
  have h₀ : 0 ∉ stripSlashes (cstr s) := fun hmem =>
    notMem_cstr s (hn ▸ List.mem_append_left _ hmem)
  have hne : stripSlashes (cstr s) ≠ [] := by
    intro hnil
    rw [hnil] at h
    cases h
  have htarget := resolve_eq_target h
  rw [target, cstr_of_notMem h₀] at htarget
  rw [target, ← htarget, start, start]
  conv_lhs => rw [hn]
  rw [List.head?_append_of_ne_nil _ hne, lexical_append_slashes]

/-- The place of a path below one that leads to `p`. -/
theorem target_below {s : Str} (hs : 0 ∉ s) (h : fs.resolve s = some p) (t : Str) :
    fs.target (s ++ slash :: t) = lexical p (components (cstr t)) := by
  have hne : s ≠ [] := by
    rintro rfl
    cases h
  have htarget := resolve_eq_target h
  rw [target, cstr_of_notMem hs] at htarget
  have hstart : fs.start (s ++ slash :: cstr t) = fs.start s := by
    rw [start, start, List.head?_append_of_ne_nil s hne]
  rw [target, cstr_append hs, cstr_cons_slash, hstart, components_append, lexical_append, htarget]

/-! ## Names that do not lead up -/

/-- The names that are no dots. -/
def names (cs : List Str) : Path := cs.filter fun c => Plain c

@[simp] theorem names_nil : names [] = [] := rfl

theorem names_cons_dot {c : Str} (h : c = [] ∨ c = lit ".") (cs : List Str) :
    names (c :: cs) = names cs := by
  have hc : ¬ Plain c := fun hp => not_or.mpr ⟨hp.1, hp.2.1⟩ h
  exact List.filter_cons_of_neg (by simpa using hc)

theorem names_cons_plain {c : Str} (h : Plain c) (cs : List Str) :
    names (c :: cs) = c :: names cs :=
  List.filter_cons_of_pos (p := fun c => decide (Plain c)) (decide_eq_true h)

theorem names_eq_self (h : ∀ c ∈ cs, Plain c) : names cs = cs :=
  List.filter_eq_self.mpr fun c hc => decide_eq_true (h c hc)

theorem lexical_eq_append (h : lit ".." ∉ cs) : lexical cur cs = cur ++ names cs := by
  induction cs generalizing cur with
  | nil => rw [lexical, names_nil, List.append_nil]
  | cons c cs ih =>
    rw [List.mem_cons, not_or] at h
    rw [lexical]
    by_cases hdot : c = [] ∨ c = lit "."
    · rw [if_pos hdot, names_cons_dot hdot, ih h.2]
    · have hc : Plain c := ⟨fun hn => hdot (.inl hn), fun hn => hdot (.inr hn), Ne.symm h.1⟩
      rw [if_neg hdot, if_neg (Ne.symm h.1), names_cons_plain hc, ih h.2, List.append_assoc,
        List.singleton_append]

theorem WellFormed.isDir_of_append (hwf : fs.WellFormed) {xs : List Str}
    (h : fs.IsDir (cur ++ xs)) : fs.IsDir cur := by
  induction xs using List.reverseRecOn with
  | nil => rwa [List.append_nil] at h
  | append_singleton xs x ih =>
    rw [← List.append_assoc] at h
    have hup := hwf.dropLast h
    rw [List.dropLast_concat] at hup
    exact ih hup

/-- A path without `..` to a directory can be walked. -/
theorem walk_names (hwf : fs.WellFormed) (h : lit ".." ∉ cs) (hd : fs.IsDir (cur ++ names cs)) :
    fs.walk cur cs = some (cur ++ names cs) := by
  induction cs generalizing cur with
  | nil => rw [walk, names_nil, List.append_nil]
  | cons c cs ih =>
    have hcur := hwf.isDir_of_append hd
    rw [List.mem_cons, not_or] at h
    rw [walk, if_pos hcur]
    by_cases hdot : c = [] ∨ c = lit "."
    · rw [names_cons_dot hdot] at hd ⊢
      rw [if_pos hdot, ih h.2 hd]
    · have hc : Plain c := ⟨fun hn => hdot (.inl hn), fun hn => hdot (.inr hn), Ne.symm h.1⟩
      rw [names_cons_plain hc, List.append_cons] at hd
      rw [if_neg hdot, if_neg (Ne.symm h.1), ih h.2 hd, names_cons_plain hc, ← List.append_cons]

/-- The last name of a path need not be there. -/
theorem exists_walk_singleton (h : fs.IsDir cur) (c : Str) : ∃ p, fs.walk cur [c] = some p := by
  rw [walk, if_pos h]
  split_ifs
  · exact ⟨_, rfl⟩
  · exact ⟨_, rfl⟩
  · exact ⟨_, rfl⟩

theorem isDir_of_walk_cons {c : Str} (h : fs.walk cur (c :: cs) = some p) : fs.IsDir cur := by
  by_contra hdir
  rw [walk, if_neg hdir] at h
  cases h

/-! ## Well-formed trees -/

/-- What is above a node is a directory. -/
theorem WellFormed.isDir_of_prefix (hwf : fs.WellFormed) (hq : fs.node q ≠ none) (hpre : p <+: q)
    (hne : q ≠ p) : fs.IsDir p := by
  obtain ⟨xs, rfl⟩ := hpre
  have hxs : xs ≠ [] := by
    rintro rfl
    exact hne (List.append_nil p)
  have hup := hwf _ hq
  rw [List.dropLast_append_of_ne_nil hxs] at hup
  exact hwf.isDir_of_append hup

theorem WellFormed.sameTree {fs' : Fs} (hwf : fs.WellFormed) (h : fs.SameTree fs') :
    fs'.WellFormed := by
  intro q hq
  rw [h.node] at hq
  rw [IsDir, h.node]
  exact hwf q hq

/-- A node where a path from a directory leads. -/
theorem WellFormed.set_walk (hwf : fs.WellFormed) (hcur : fs.IsDir cur)
    (h : fs.walk cur cs = some p) (hp : ¬ fs.IsDir p) (n : Node) : (fs.set p n).WellFormed := by
  rcases walk_end hwf hcur h with hd | ⟨q, c, -, rfl, hq⟩
  · exact absurd hd hp
  · refine hwf.set ?_ hp
    rwa [List.dropLast_concat]

theorem WellFormed.del_file (hwf : fs.WellFormed) {data : Str} (hp : fs.node p = some (.file data)) :
    (fs.del p).WellFormed := by
  intro q hq
  by_cases hqp : q = p
  · rw [hqp, node_del fs (ne_nil_of_node_file hp)] at hq
    exact absurd rfl hq
  · rw [node_del_ne fs hqp] at hq
    have hup := hwf q hq
    -- a file has nothing below it
    have hne : q.dropLast ≠ p := by
      rintro rfl
      rw [IsDir, hp] at hup
      cases hup
    rwa [IsDir, node_del_ne fs hne]

theorem WellFormed.unlink (hwf : fs.WellFormed) (s : Str) : (fs.unlink s).2.WellFormed := by
  unfold Fs.unlink
  split
  · exact hwf
  · split
    · rename_i hp
      exact hwf.del_file hp
    · exact hwf

@[simp] theorem stripSlashes_concat (s : Str) : stripSlashes (s ++ [slash]) = stripSlashes s := by
  simp [stripSlashes]

theorem WellFormed.mkdir (hwf : fs.WellFormed) {s : Str} (hstart : fs.IsDir (fs.start (cstr s))) :
    (fs.mkdir s).2.WellFormed := by
  unfold Fs.mkdir
  split
  · exact hwf
  · rename_i p hr
    split
    · rename_i hp
      obtain ⟨n, hn⟩ := exists_stripSlashes (cstr s)
      have h₀ : 0 ∉ stripSlashes (cstr s) := fun hmem =>
        notMem_cstr s (hn ▸ List.mem_append_left _ hmem)
      have hdir : ¬ fs.IsDir p := by simp [IsDir, hp]
      unfold resolve at hr
      split_ifs at hr with hne
      rw [cstr_of_notMem h₀] at hr hne
      have hsame : fs.start (stripSlashes (cstr s)) = fs.start (cstr s) := by
        conv_rhs => rw [start, hn, List.head?_append_of_ne_nil _ hne]
        rfl
      rw [← hsame] at hstart
      exact hwf.set_walk hstart hr hdir _
    · exact hwf

/-! ## Files that are removed -/

theorem unlink_of_contents {s data : Str} (h : fs.contents s = some data) :
    ∃ q, fs.resolve s = some q ∧ fs.node q = some (.file data) ∧ (fs.unlink s).2 = fs.del q := by
  obtain ⟨q, hr, hq⟩ := of_contents h
  refine ⟨q, hr, hq, ?_⟩
  rw [unlink, hr]
  simp only [hq]

theorem unlink_of_contents_none {s : Str} (h : fs.contents s = none) : (fs.unlink s).2 = fs := by
  unfold unlink
  split
  · rfl
  · rename_i q hr
    split
    · rename_i data hq
      rw [contents_eq hr hq] at h
      cases h
    · rfl

end Fs

end Lib.Posix
