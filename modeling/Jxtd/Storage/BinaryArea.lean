import Jxtd.Storage.Descriptors
import Jxtd.Storage.Layout

/-!
# The binary area

`binary_push` makes the directories of a path that are missing and then the file.

* `binaryTarget`: where a path leads from the area, `..` included.
* `Makes`: directories of the path, and nothing else, are new.
* **`makes_makeDirectories`**, **`isDirAt_makeDirectories`**: after the two loops all of them are
  there.
* `binaryPush_new`, `binaryPush_old`: the whole function.
* `StaysAlong`: a path that never leaves the area; `Inner.staysAlong`: so it is without `..`.
-/

namespace Jxtd.Storage

open Lib Posix

/-- Where a path leads from the binary area. -/
def binaryTarget (p : Path) (path : Str) : Path :=
  Fs.lexical (p ++ [lit "binary"]) (components (cstr path))

section Targets

variable {p : Path} {b c path : Str}

theorem components_of_prefix (h : b ++ [slash] <+: path) :
    ∃ rest, components path = components b ++ rest ∧ rest ≠ [] := by
  obtain ⟨t, rfl⟩ := h
  refine ⟨components t, ?_, components_ne_nil t⟩
  rw [List.append_assoc, List.singleton_append, components_append]

theorem notMem_before (h₀ : 0 ∉ path) (h : b ++ [slash] <+: path) : 0 ∉ b :=
  fun hmem => h₀ (h.subset (List.mem_append_left _ hmem))

theorem notMem_concat_slash (h₀ : 0 ∉ b) : 0 ∉ b ++ [slash] := by
  rw [List.mem_append, not_or]
  exact ⟨h₀, by decide⟩

@[simp] theorem binaryTarget_concat_slash (p : Path) (b : Str) :
    binaryTarget p (b ++ [slash]) = binaryTarget p b := by
  unfold binaryTarget
  by_cases h₀ : 0 ∈ b
  · rw [Fs.cstr_append_of_mem h₀]
  · have hslash : cstr [slash] = [slash] := rfl
    rw [Fs.cstr_append h₀, cstr_of_notMem h₀, hslash, components_append, Fs.lexical_append]
    rfl

end Targets

/-- The directories that `binary_push` looks for are what is before a slash. -/
theorem mem_searched {b path : Str} : b ∈ searched path ↔ b ++ [slash] <+: path := by
  induction hn : path.length using Nat.strong_induction_on generalizing path with
  | _ n ih =>
    subst hn
    unfold searched
    cases hpos : findLastSlash path with
    | none =>
      refine iff_of_false List.not_mem_nil fun hpre => ?_
      exact notMem_of_findLastSlash hpos (hpre.subset (List.mem_append_right b List.mem_cons_self))
    | some pos =>
      obtain ⟨hsplit, hslash⟩ := findLastSlash_split hpos
      have hlt := length_take_lt hpos
      have hrest : parents (path.take pos) = path.take pos :: searched (path.take pos) := by
        rw [parents_eq, searched]
        cases findLastSlash (path.take pos) <;> rfl
      dsimp only
      rw [hrest, List.mem_cons, ih _ hlt rfl]
      generalize path.take pos = a at hsplit
      generalize path.drop (pos + 1) = c at hsplit hslash
      subst hsplit
      constructor
      · rintro (rfl | hpre)
        · exact ⟨c, by rw [List.append_assoc, List.singleton_append]⟩
        · exact hpre.trans (List.prefix_append a _)
      · rintro ⟨t, ht⟩
        rw [List.append_assoc, List.singleton_append, List.append_eq_append_iff] at ht
        rcases ht with ⟨bs, rfl, hbs⟩ | ⟨as, rfl, has⟩
        · cases bs with
          | nil => exact .inl (List.append_nil b).symm
          | cons x bs =>
            rw [List.cons_append, List.cons.injEq] at hbs
            rw [← hbs.1]
            exact .inr ⟨bs, by rw [List.append_assoc, List.singleton_append]⟩
        · cases as with
          | nil => exact .inl (List.append_nil a)
          | cons x as =>
            rw [List.cons_append, List.cons.injEq] at has
            refine absurd ?_ hslash
            rw [has.2]
            exact List.mem_append_right as List.mem_cons_self

/-! ## Paths of the area -/

section Area

variable {d : Datamanager} {fs fs' : Fs} {p q : Path} {b c path : Str}

theorem binary_mem : lit "binary" ∈ areas := by decide

theorem Layout.target_binary (h : Layout d fs p) (path : Str) :
    fs.target (d.binaryPath path) = binaryTarget p path := by
  rw [binaryPath_eq, h.target_area binary_mem, binaryTarget]

/-- **A path of the binary area leads to its place**, or nowhere. -/
theorem Layout.resolve_binaryTarget (h : Layout d fs p)
    (hr : fs.resolve (d.binaryPath path) = some q) : q = binaryTarget p path := by
  rw [← h.target_binary, Fs.resolve_eq_target hr]

theorem Layout.resolve_binary (h : Layout d fs p) (h₀ : 0 ∉ b) :
    fs.resolve (d.binaryPath b) = fs.walk (p ++ [lit "binary"]) (components b) := by
  rw [binaryPath_eq, h.resolve_area binary_mem, cstr_of_notMem h₀]

/-- **A directory of a path** is there. -/
theorem Layout.isDir_of_isDirAt (h : Layout d fs p) (hdir : Local.IsDirAt fs (d.binaryPath b)) :
    fs.IsDir (binaryTarget p b) := by
  obtain ⟨q, hr, hq⟩ := hdir
  rwa [← h.resolve_binaryTarget hr]

/-- A path whose parent is a directory can be walked. -/
theorem Layout.resolve_binary_child (h : Layout d fs p) (h₀ : 0 ∉ b ++ slash :: c)
    (hc : slash ∉ c) (hdir : Local.IsDirAt fs (d.binaryPath b)) :
    fs.resolve (d.binaryPath (b ++ slash :: c)) = some (binaryTarget p (b ++ slash :: c)) := by
  obtain ⟨q, hr, hq⟩ := hdir
  obtain ⟨q', hq'⟩ := Fs.exists_walk_singleton hq c
  have hb : 0 ∉ b := fun hmem => h₀ (List.mem_append_left _ hmem)
  rw [h.resolve_binary hb] at hr
  have hchild : fs.resolve (d.binaryPath (b ++ slash :: c)) = some q' := by
    rw [h.resolve_binary h₀, components_append, components_of_notMem hc, Fs.walk_append, hr,
      Option.bind_some, hq']
  rw [hchild, h.resolve_binaryTarget hchild]

theorem Layout.resolve_binary_name (h : Layout d fs p) (h₀ : 0 ∉ c) (hc : slash ∉ c) :
    fs.resolve (d.binaryPath c) = some (binaryTarget p c) := by
  obtain ⟨q', hq'⟩ := Fs.exists_walk_singleton (h.area _ binary_mem) c
  have hname : fs.resolve (d.binaryPath c) = some q' := by
    rw [h.resolve_binary h₀, components_of_notMem hc, hq']
  rw [hname, h.resolve_binaryTarget hname]

/-- What is before a slash of a path to a directory is a directory. -/
theorem Layout.isDirAt_of_prefix (h : Layout d fs p) (h₀ : 0 ∉ path) (hb : b ++ [slash] <+: path)
    (hr : fs.resolve (d.binaryPath path) = some q) : Local.IsDirAt fs (d.binaryPath b) := by
  obtain ⟨rest, hrest, hne⟩ := components_of_prefix hb
  rw [h.resolve_binary h₀, hrest, Fs.walk_append] at hr
  obtain ⟨q', hq', hwalk⟩ := Option.bind_eq_some_iff.mp hr
  refine ⟨q', by rw [h.resolve_binary (notMem_before h₀ hb), hq'], ?_⟩
  obtain ⟨c, cs, rfl⟩ := List.exists_cons_of_ne_nil hne
  exact Fs.isDir_of_walk_cons hwalk

end Area

/-! ## New directories -/

/-- What is new are directories of the path. -/
structure Makes (p : Path) (path : Str) (fs fs' : Fs) : Prop where
  grows : fs.Grows fs'
  wf : fs'.WellFormed
  new : ∀ q, fs'.node q = fs.node q ∨ fs.node q = none ∧ fs'.node q = some .dir ∧
    ∃ b, b ++ [slash] <+: path ∧ q = binaryTarget p b

section Makes

variable {d : Datamanager} {fs fs' fs'' : Fs} {p q : Path} {b c path : Str}

theorem Layout.makes (h : Layout d fs p) (hm : Makes p path fs fs') : Layout d fs' p :=
  h.keepsDirs hm.grows.keepsDirs hm.wf rfl

theorem Makes.refl (hwf : fs.WellFormed) : Makes p path fs fs :=
  ⟨.refl fs, hwf, fun _ => .inl rfl⟩

theorem Makes.of_sameTree (hwf : fs.WellFormed) (h : fs.SameTree fs') : Makes p path fs fs' :=
  ⟨h.grows, hwf.sameTree h, fun q => .inl (h.node q)⟩

theorem Makes.trans (h : Makes p path fs fs') (h' : Makes p path fs' fs'') :
    Makes p path fs fs'' := by
  refine ⟨h.grows.trans h'.grows, h'.wf, fun q => ?_⟩
  rcases h.new q with heq | ⟨hnone, hdir, hb⟩
  · rw [← heq]
    exact h'.new q
  · exact .inr ⟨hnone, h'.grows.node q _ hdir, hb⟩

/-- A file is no new node. -/
theorem Makes.file (h : Makes p path fs fs') {data : Str} (hq : fs'.node q = some (.file data)) :
    fs.node q = some (.file data) := by
  rcases h.new q with heq | ⟨-, hdir, -⟩
  · rw [← heq, hq]
  · rw [hdir] at hq
    cases hq

/-- Elsewhere nothing is new. -/
theorem Makes.node_ne (h : Makes p path fs fs') (hq : ∀ b ∈ searched path, binaryTarget p b ≠ q) :
    fs'.node q = fs.node q := by
  rcases h.new q with heq | ⟨-, -, b, hb, hplace⟩
  · exact heq
  · exact absurd hplace.symm (hq b (mem_searched.mpr hb))

theorem exists_binaryPath (d : Datamanager) (b : Str) : ∃ t, d.binaryPath b = d.rootPath ++ t :=
  ⟨_, List.append_assoc ..⟩

theorem Layout.makes_mkdir (h : Layout d fs p) (hb : b ++ [slash] <+: path)
    (htarget : binaryTarget p c = binaryTarget p b) :
    Makes p path fs (fs.mkdir (d.binaryPath c)).2 := by
  obtain ⟨t, ht⟩ := exists_binaryPath d c
  refine ⟨Fs.grows_mkdir fs _, h.wf.mkdir ?_, fun q => ?_⟩
  · rw [ht, Fs.cstr_append h.root]
    exact h.isDir_start (cstr t)
  · unfold Fs.mkdir
    split
    · exact .inl rfl
    · rename_i r hr
      split
      · rename_i hnone
        have hplace : binaryTarget p b = r := by
          rw [← htarget, ← h.target_binary, Fs.resolve_stripSlashes hr]
        by_cases hq : q = r
        · rw [hq]
          exact .inr ⟨hnone, Fs.node_set fs (Fs.ne_nil_of_node_none hnone) _, b, hb, hplace.symm⟩
        · exact .inl (Fs.node_set_ne fs hq _)
      · exact .inl rfl

/-- **The loops of `binary_push` make directories of its path** and nothing else. -/
theorem makes_makeDirectories (h : Layout d fs p) (path : Str) :
    Makes p path fs (d.makeDirectories localFileoperations fs path) := by
  refine d.makeDirectories_along (R := fun fs fs' => Layout d fs p → Makes p path fs fs')
    (fun _ h => .refl h.wf) (fun h₁ h₂ h => (h₁ h).trans (h₂ (h.makes (h₁ h)))) path
    ?_ ?_ ?_ fs h
  · intro fs b _ h
    exact .of_sameTree h.wf (Fs.sameTree_openFile fs _ rfl)
  · intro fs b hb h
    exact h.makes_mkdir hb rfl
  · intro fs b hb h
    exact h.makes_mkdir hb (binaryTarget_concat_slash p b)

/-! ## The loops reach the parent -/

/-- No file is at the place of a directory of the path. -/
def NoFile (p : Path) (path : Str) (fs : Fs) : Prop :=
  ∀ b, b ++ [slash] <+: path → ∀ data, fs.node (binaryTarget p b) ≠ some (.file data)

theorem NoFile.makes (h : NoFile p path fs) (hm : Makes p path fs fs') : NoFile p path fs' :=
  fun b hb data hfile => h b hb data (hm.file hfile)

theorem Layout.notMem_binaryPath (h : Layout d fs p) (h₀ : 0 ∉ b) : 0 ∉ d.binaryPath b := by
  rw [binaryPath_eq, List.mem_append, List.mem_cons, not_or, not_or]
  exact ⟨h.notMem_area binary_mem, by decide, h₀⟩

/-- One `mkdir` at the end of a path that can be walked. -/
theorem isDir_mkdir {s : Str} (hr : fs.resolve (Fs.stripSlashes (cstr s)) = some q)
    (hfile : ∀ data, fs.node q ≠ some (.file data)) : (fs.mkdir s).2.IsDir q := by
  rw [Fs.mkdir, hr]
  cases hq : fs.node q with
  | none =>
    dsimp only
    rw [hq]
    exact Fs.node_set fs (Fs.ne_nil_of_node_none hq) .dir
  | some n =>
    cases n with
    | dir =>
      dsimp only
      rw [hq]
      exact hq
    | file data => exact absurd hq (hfile data)

/-- The path of a new directory, without a slash at its end. -/
theorem stripSlashes_binaryPath (d : Datamanager) (b : Str) (hc : c ≠ []) (hslash : slash ∉ c) :
    Fs.stripSlashes (d.binaryPath (b ++ c)) = d.binaryPath (b ++ c) := by
  rw [Datamanager.binaryPath, ← List.append_assoc]
  exact Fs.stripSlashes_append hc hslash _

/-- The first directory of a path. -/
theorem Layout.isDirAt_mkdir_name (h : Layout d fs p) (h₀ : 0 ∉ c) (hslash : slash ∉ c)
    (hnot : ¬ Local.IsDirAt fs (d.binaryPath c))
    (hfile : ∀ data, fs.node (binaryTarget p c) ≠ some (.file data)) :
    Local.IsDirAt (fs.mkdir (d.binaryPath c)).2 (d.binaryPath c) := by
  have hr := h.resolve_binary_name h₀ hslash
  have hne : c ≠ [] := by
    rintro rfl
    exact hnot ⟨_, hr, h.area _ binary_mem⟩
  have hstrip := stripSlashes_binaryPath d [] hne hslash
  rw [List.nil_append] at hstrip
  refine ⟨_, (Fs.grows_mkdir fs _).keepsDirs.resolve hr, isDir_mkdir ?_ hfile⟩
  rw [cstr_of_notMem (h.notMem_binaryPath h₀), hstrip, hr]

/-- The next directory of a path. -/
theorem Layout.isDirAt_mkdir_child (h : Layout d fs p) (h₀ : 0 ∉ b ++ slash :: c)
    (hslash : slash ∉ c) (hdir : Local.IsDirAt fs (d.binaryPath b))
    (hfile : ∀ data, fs.node (binaryTarget p (b ++ slash :: c)) ≠ some (.file data)) :
    Local.IsDirAt (fs.mkdir (d.binaryPath (b ++ slash :: c ++ [slash]))).2
      (d.binaryPath (b ++ slash :: c)) := by
  have hr := h.resolve_binary_child h₀ hslash hdir
  have hgrows := Fs.grows_mkdir fs (d.binaryPath (b ++ slash :: c ++ [slash]))
  refine ⟨_, hgrows.keepsDirs.resolve hr, ?_⟩
  by_cases hc : c = []
  · have htarget : binaryTarget p (b ++ slash :: c) = binaryTarget p b := by
      rw [hc]
      exact binaryTarget_concat_slash p b
    rw [htarget]
    exact hgrows.keepsDirs.isDir _ (h.isDir_of_isDirAt hdir)
  · refine isDir_mkdir ?_ hfile
    have hstrip := stripSlashes_binaryPath d (b ++ [slash]) hc hslash
    rw [List.append_assoc, List.singleton_append] at hstrip
    have hconcat : d.binaryPath (b ++ slash :: c ++ [slash]) =
        d.binaryPath (b ++ slash :: c) ++ [slash] := (List.append_assoc ..).symm
    rw [cstr_of_notMem (h.notMem_binaryPath (notMem_concat_slash h₀)), hconcat,
      Fs.stripSlashes_concat, hstrip, hr]

/-- What the first loop ends with: a directory, or a single name that is none. -/
theorem openParent_local (d : Datamanager) (fs : Fs) (path : Str) :
    fs.SameTree (d.openParent localFileoperations fs path).2.2 ∧
      (((d.openParent localFileoperations fs path).1 = true ∧
        slash ∉ (d.openParent localFileoperations fs path).2.1 ∧
        ¬ Local.IsDirAt fs (d.binaryPath (d.openParent localFileoperations fs path).2.1)) ∨
      ((d.openParent localFileoperations fs path).1 = false ∧
        Local.IsDirAt fs (d.binaryPath (d.openParent localFileoperations fs path).2.1))) := by
  induction hn : path.length using Nat.strong_induction_on generalizing path with
  | _ n ih =>
    subst hn
    have hcode : (localFileoperations.opendir fs (d.binaryPath path) { directory := true }).1 = -1 ↔
        ¬ Local.IsDirAt fs (d.binaryPath path) := Local.opendir_code
    rw [d.openParent_eq localFileoperations]
    by_cases hdir : Local.IsDirAt fs (d.binaryPath path)
    · rw [if_neg fun h => hcode.mp h hdir]
      exact ⟨Fs.sameTree_openFile fs _ rfl, .inr ⟨rfl, hdir⟩⟩
    · have hfail : localFileoperations.opendir fs (d.binaryPath path) { directory := true } =
          (-1, fs) := Local.opendir_fails hdir
      rw [if_pos (hcode.mpr hdir), hfail]
      cases hpos : findLastSlash path with
      | none => exact ⟨.refl fs, .inl ⟨rfl, notMem_of_findLastSlash hpos, hdir⟩⟩
      | some pos =>
        exact ih _ (length_take_lt hpos) _ rfl

/-- The second loop goes down from a directory to the last one of the path. -/
theorem isDirAt_makeParents (h : Layout d fs p) {substr full : Str} (h₀ : 0 ∉ full)
    (hpath : b ++ slash :: substr = full) (hdir : Local.IsDirAt fs (d.binaryPath b))
    (hfile : NoFile p full fs) {pos : ℕ} (hpos : findLastSlash full = some pos) :
    Local.IsDirAt (d.makeParents localFileoperations fs (b ++ lit "/") substr)
      (d.binaryPath (full.take pos)) := by
  induction hn : substr.length using Nat.strong_induction_on generalizing fs b substr with
  | _ n ih =>
    subst hn
    rw [Datamanager.makeParents]
    split
    · rename_i hnone
      have hslash : slash ∉ substr := fun hmem => by
        simpa using List.findIdx?_eq_none_iff.mp hnone slash hmem
      rw [← hpath, findLastSlash_append b hslash, Option.some_inj] at hpos
      rw [← hpath, ← hpos, List.take_left]
      exact hdir
    · rename_i i hi
      obtain ⟨hlt, hi, hbefore⟩ := List.findIdx?_eq_some_iff_getElem.mp hi
      have hc : slash ∉ substr.take i := by
        intro hmem
        obtain ⟨j, hj, hjs⟩ := List.mem_iff_getElem.mp hmem
        rw [List.length_take] at hj
        rw [List.getElem_take] at hjs
        have hji := hbefore j (by omega)
        simp [hjs] at hji
      have hsub : substr.take i ++ slash :: substr.drop (i + 1) = substr := by
        conv_rhs => rw [← List.take_append_drop i substr, List.drop_eq_getElem_cons hlt,
          of_decide_eq_true hi]
      have hnext : (b ++ slash :: substr.take i) ++ slash :: substr.drop (i + 1) = full := by
        rw [List.append_assoc, List.cons_append, hsub, hpath]
      have hpre : (b ++ slash :: substr.take i) ++ [slash] <+: full :=
        ⟨substr.drop (i + 1), by rw [List.append_assoc, List.singleton_append, hnext]⟩
      have hmakes : Makes p full fs
          (fs.mkdir (d.binaryPath (b ++ slash :: substr.take i ++ [slash]))).2 :=
        h.makes_mkdir hpre (binaryTarget_concat_slash p _)
      have hchild := h.isDirAt_mkdir_child (notMem_before h₀ hpre) hc hdir (hfile _ hpre)
      have htake : (b ++ lit "/") ++ substr.take (i + 1) =
          (b ++ slash :: substr.take i) ++ lit "/" := by
        rw [List.take_succ_eq_append_getElem hlt, of_decide_eq_true hi, List.append_assoc,
          List.append_assoc]
        rfl
      have hlen : (substr.drop (i + 1)).length < substr.length := by
        rw [List.length_drop]
        omega
      rw [htake]
      exact ih _ hlen (h.makes hmakes) hnext hchild (hfile.makes hmakes) rfl

theorem isDirAt_of_sameTree {s : Str} (hsame : fs.SameTree fs') (h : Local.IsDirAt fs s) :
    Local.IsDirAt fs' s := by
  obtain ⟨q, hr, hq⟩ := h
  exact ⟨q, hsame.grows.keepsDirs.resolve hr, hsame.grows.keepsDirs.isDir q hq⟩

/-- **After the loops of `binary_push`** the parent of the file is a directory. -/
theorem isDirAt_makeDirectories (h : Layout d fs p) (h₀ : 0 ∉ path) (hfile : NoFile p path fs)
    {pos : ℕ} (hpos : findLastSlash path = some pos) :
    Local.IsDirAt (d.makeDirectories localFileoperations fs path)
      (d.binaryPath (path.take pos)) := by
  have hparent := take_findLastSlash hpos
  have hprefix : fs.SameTree (d.openParent localFileoperations fs (path.take pos)).2.2 ∧
      (d.openParent localFileoperations fs (path.take pos)).2.1 ++ [slash] <+: path :=
    d.openParent_along (R := Fs.SameTree) Fs.SameTree.trans
      (fun fs b _ => Fs.sameTree_openFile fs _ rfl) fs hparent
  obtain ⟨hsame, hcases⟩ := openParent_local d fs (path.take pos)
  obtain ⟨-, hb⟩ := hprefix
  unfold Datamanager.makeDirectories
  rw [hpos]
  dsimp only
  revert hsame hcases hb
  generalize d.openParent localFileoperations fs (path.take pos) = out
  obtain ⟨create, b, fs₁⟩ := out
  dsimp only
  intro hsame hcases hb
  have hmade : Makes p path fs fs₁ := .of_sameTree h.wf hsame
  have hl₁ := h.makes hmade
  have hrest : b ++ slash :: path.drop (b.length + 1) = path := by
    have := Datamanager.append_drop_of_prefix hb
    rwa [List.append_assoc, List.singleton_append] at this
  rcases hcases with ⟨rfl, hslash, hnot⟩ | ⟨rfl, hdir⟩
  · -- nothing is there yet: the first name is made before the loop
    have hnot₁ : ¬ Local.IsDirAt fs₁ (d.binaryPath b) :=
      fun hdir => hnot (isDirAt_of_sameTree hsame.symm hdir)
    have hmakes := hl₁.makes_mkdir hb (rfl : binaryTarget p b = binaryTarget p b)
    have hfirst := hl₁.isDirAt_mkdir_name (notMem_before h₀ hb) hslash hnot₁
      ((hfile.makes hmade) b hb)
    rw [if_pos rfl]
    exact isDirAt_makeParents (hl₁.makes hmakes) h₀ hrest hfirst
      ((hfile.makes hmade).makes hmakes) hpos
  · rw [if_neg Bool.false_ne_true]
    exact isDirAt_makeParents hl₁ h₀ hrest (isDirAt_of_sameTree hsame hdir) (hfile.makes hmade) hpos

/-! ## The file -/

variable {data : Str}

/-- **After the loops the path leads to its place.** -/
theorem resolve_makeDirectories (h : Layout d fs p) (h₀ : 0 ∉ path) (hfile : NoFile p path fs) :
    (d.makeDirectories localFileoperations fs path).resolve (d.binaryPath path) =
      some (binaryTarget p path) := by
  have hl := h.makes (makes_makeDirectories h path)
  cases hpos : findLastSlash path with
  | none => exact hl.resolve_binary_name h₀ (notMem_of_findLastSlash hpos)
  | some pos =>
    have hdir := isDirAt_makeDirectories h h₀ hfile hpos
    obtain ⟨hsplit, hslash⟩ := findLastSlash_split hpos
    have hr := hl.resolve_binary_child (by rwa [hsplit]) hslash hdir
    rwa [hsplit] at hr

/-- A path that can be that of a file: it does not lead to a directory of its own. -/
def Ends (p : Path) (path : Str) : Prop :=
  binaryTarget p path ≠ p ++ [lit "binary"] ∧
    ∀ b ∈ searched path, binaryTarget p b ≠ binaryTarget p path

instance (p : Path) (path : Str) : Decidable (Ends p path) :=
  inferInstanceAs (Decidable (_ ∧ _))

/-- **A new binary.** -/
theorem binaryPush_new (h : Layout d fs p) (h₀ : 0 ∉ path) (hfile : NoFile p path fs)
    (hends : Ends p path) (hnone : fs.node (binaryTarget p path) = none) (data : Str) :
    (d.makeDirectories localFileoperations fs path).node (binaryTarget p path) = none ∧
    d.binaryPush localFileoperations fs path data =
      (0, (d.makeDirectories localFileoperations fs path).set (binaryTarget p path)
        (.file data)) := by
  have hnone₁ := (makes_makeDirectories h path).node_ne hends.2
  rw [hnone] at hnone₁
  exact ⟨hnone₁, Local.push_new (resolve_makeDirectories h h₀ hfile) hnone₁ data⟩

/-- A push where the loops leave something leaves only directories. -/
theorem binaryPush_taken (h : Layout d fs p) (h₀ : 0 ∉ path) (hfile : NoFile p path fs)
    (htaken : (d.makeDirectories localFileoperations fs path).node (binaryTarget p path) ≠ none)
    (data : Str) :
    d.binaryPush localFileoperations fs path data =
      (-1, d.makeDirectories localFileoperations fs path) := by
  refine Local.push_old (fun q hr => ?_) data
  change (d.makeDirectories localFileoperations fs path).resolve _ = some q at hr
  rw [resolve_makeDirectories h h₀ hfile, Option.some_inj] at hr
  rw [← hr]
  exact htaken

/-- **A binary where something is** leaves only directories. -/
theorem binaryPush_old (h : Layout d fs p) (h₀ : 0 ∉ path) (hfile : NoFile p path fs)
    (hsome : fs.node (binaryTarget p path) ≠ none) (data : Str) :
    d.binaryPush localFileoperations fs path data =
      (-1, d.makeDirectories localFileoperations fs path) := by
  refine binaryPush_taken h h₀ hfile ?_ data
  obtain ⟨n, hn⟩ := Option.ne_none_iff_exists'.mp hsome
  rw [(makes_makeDirectories h path).grows.node _ n hn]
  exact Option.some_ne_none n

/-- Nothing is pushed under a path that leads to a directory of its own. -/
theorem binaryPush_dot (h : Layout d fs p) (h₀ : 0 ∉ path) (hfile : NoFile p path fs)
    (hends : ¬ Ends p path) (data : Str) :
    d.binaryPush localFileoperations fs path data =
      (-1, d.makeDirectories localFileoperations fs path) := by
  refine binaryPush_taken h h₀ hfile ?_ data
  have hl := h.makes (makes_makeDirectories h path)
  have hr := resolve_makeDirectories h h₀ hfile
  have hdir : (d.makeDirectories localFileoperations fs path).IsDir (binaryTarget p path) := by
    by_cases harea : binaryTarget p path = p ++ [lit "binary"]
    · rw [harea]
      exact hl.area _ binary_mem
    · obtain ⟨b, hb, heq⟩ : ∃ b ∈ searched path, binaryTarget p b = binaryTarget p path := by
        by_contra hnone
        push Not at hnone
        exact hends ⟨harea, hnone⟩
      rw [← heq]
      exact hl.isDir_of_isDirAt (hl.isDirAt_of_prefix h₀ (mem_searched.mp hb) hr)
  rw [hdir]
  exact Option.some_ne_none _

/-- Nothing is found under such a path. -/
theorem Layout.contents_dot (h : Layout d fs p) (hfile : NoFile p path fs)
    (hends : ¬ Ends p path) : fs.contents (d.binaryPath path) = none := by
  by_contra hsome
  obtain ⟨data, hdata⟩ := Option.ne_none_iff_exists'.mp hsome
  obtain ⟨q, hr, hq⟩ := Fs.of_contents hdata
  rw [h.resolve_binaryTarget hr] at hq
  refine hends ⟨fun harea => ?_, fun b hb heq => ?_⟩
  · have hdir := h.area _ binary_mem
    rw [Fs.IsDir, ← harea, hq] at hdir
    cases hdir
  · rw [← heq] at hq
    exact hfile b (mem_searched.mp hb) data hq

end Makes

/-! ## Paths that stay in the area -/

/-- A path whose place is in the binary area. -/
def Stays (p : Path) (path : Str) : Prop := p ++ [lit "binary"] <+: binaryTarget p path

instance (p : Path) (path : Str) : Decidable (Stays p path) :=
  inferInstanceAs (Decidable (_ <+: _))

/-- A path that does not leave the area before a slash either. -/
def StaysAlong (p : Path) (path : Str) : Prop :=
  Stays p path ∧ ∀ b ∈ searched path, Stays p b

/-- A path with no component `..` and no zero byte. -/
structure Inner (path : Str) : Prop where
  up : lit ".." ∉ components path
  nul : 0 ∉ path

section Stays

variable {d : Datamanager} {fs fs' : Fs} {p q : Path} {b c path : Str}

/-- Nothing of another area is in the binary area. -/
theorem Stays.not_below (h : Stays p path) (hc : lit "binary" ≠ c) :
    ¬ p ++ c :: q <+: binaryTarget p path := by
  obtain ⟨t, ht⟩ := h
  rw [← ht, List.append_assoc]
  intro hpre
  have hhead := (List.cons_prefix_cons.mp ((List.prefix_append_right_inj p).mp hpre)).1
  exact hc hhead.symm

theorem Inner.of_prefix (h : Inner path) (hb : b ++ [slash] <+: path) : Inner b := by
  obtain ⟨rest, hrest, -⟩ := components_of_prefix hb
  refine ⟨fun hmem => h.up ?_, notMem_before h.nul hb⟩
  rw [hrest]
  exact List.mem_append_left rest hmem

theorem Inner.binaryTarget_eq (h : Inner path) (p : Path) :
    binaryTarget p path = p ++ [lit "binary"] ++ Fs.names (components path) := by
  rw [binaryTarget, cstr_of_notMem h.nul, Fs.lexical_eq_append h.up]

/-- **A path without `..`** never leaves the area. -/
theorem Inner.staysAlong (h : Inner path) (p : Path) : StaysAlong p path := by
  have hstays {b : Str} (hb : Inner b) : Stays p b := by
    rw [Stays, hb.binaryTarget_eq]
    exact List.prefix_append _ _
  exact ⟨hstays h, fun b hb => hstays (h.of_prefix (mem_searched.mp hb))⟩

/-- Without `..`, a directory of the area is one exactly at its place. -/
theorem Layout.isDirAt_binary (h : Layout d fs p) (hb : Inner b)
    (hdir : fs.IsDir (binaryTarget p b)) : Local.IsDirAt fs (d.binaryPath b) := by
  refine ⟨binaryTarget p b, ?_, hdir⟩
  rw [hb.binaryTarget_eq] at hdir ⊢
  rw [h.resolve_binary hb.nul]
  exact Fs.walk_names h.wf hb.up hdir

theorem Makes.within (h : Makes p path fs fs') (hpath : StaysAlong p path) :
    Within (p ++ [lit "binary"]) fs fs' :=
  ⟨h.grows.keepsDirs, fun _ => h.wf, fun _ hq => h.node_ne fun b hb heq =>
    hq (heq ▸ hpath.2 b hb)⟩

end Stays

end Jxtd.Storage
