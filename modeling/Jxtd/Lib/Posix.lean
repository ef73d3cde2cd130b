import Jxtd.Lib.Bytes
import Mathlib.Data.Finset.Card
import Mathlib.Data.List.AList
import Mathlib.Data.List.TakeWhile

/-!
# A file system in the manner of POSIX

A tree of directories and files without links, and a table of open descriptors. A node is known by
its path, the list of names from the root; no call fails for lack of space or permission. A `read` or
`write` transfers all bytes that it is asked for (Linux stops at `0x7ffff000` a call), and a name can
be of any length (Linux has 255 bytes).

* `components`, `Fs.walk`, `Fs.resolve`: a path string is walked name by name.
* `openFile`, `write`, `read`, `close`, `fsize`, `unlink`, `mkdir`: the calls.
* **`walk_components`**: walking below a directory.
* `freshFd_notMem`: a new descriptor is not in use.
-/

namespace Lib.Posix

/-- The names from the root. -/
abbrev Path := List Str

inductive Node
  | dir
  | file (data : Str)
  deriving DecidableEq

/-- What a descriptor refers to. -/
structure OpenFile where
  path : Path
  write : Bool
  append : Bool
  offset : ℕ
  deriving DecidableEq

structure Fs where
  nodes : AList fun _ : Path => Node
  fds : AList fun _ : ℤ => OpenFile
  cwd : Path
  deriving DecidableEq

/-- `O_RDONLY` when `write` is not set, and the flags of `open`. -/
structure OpenFlags where
  write : Bool := false
  creat : Bool := false
  excl : Bool := false
  append : Bool := false
  directory : Bool := false
  deriving DecidableEq

/-! ## Paths -/

/-- A C string ends before its first zero byte. -/
def cstr (s : Str) : Str := s.takeWhile fun b => b ≠ 0

theorem cstr_of_notMem {s : Str} (h : 0 ∉ s) : cstr s = s :=
  List.takeWhile_eq_self_iff.mpr fun _ hb => decide_eq_true fun h0 => h (h0 ▸ hb)

/-- The slash. -/
def slash : UInt8 := 0x2f

/-- A string that can be part of the name of a file. -/
def Clean (s : Str) : Prop := 0 ∉ s ∧ slash ∉ s

instance (s : Str) : Decidable (Clean s) := inferInstanceAs (Decidable (_ ∧ _))

theorem Clean.append {a b : Str} (ha : Clean a) (hb : Clean b) : Clean (a ++ b) := by
  constructor <;> rw [List.mem_append, not_or]
  · exact ⟨ha.1, hb.1⟩
  · exact ⟨ha.2, hb.2⟩

theorem Clean.of_append {a b : Str} (h : Clean (a ++ b)) : Clean a ∧ Clean b := by
  obtain ⟨h0, hs⟩ := h
  rw [List.mem_append, not_or] at h0 hs
  exact ⟨⟨h0.1, hs.1⟩, h0.2, hs.2⟩

theorem notMem_cstr (s : Str) : 0 ∉ cstr s := by
  intro h
  simpa using List.mem_takeWhile_imp h

/-- The names between the slashes. -/
def components : Str → List Str
  | [] => [[]]
  | c :: cs =>
    if c = slash then [] :: components cs
    else
      match components cs with
      | [] => [[c]]
      | p :: ps => (c :: p) :: ps

theorem components_ne_nil (s : Str) : components s ≠ [] := by
  cases s with
  | nil => exact List.cons_ne_nil _ _
  | cons c cs =>
    rw [components]
    split_ifs
    · exact List.cons_ne_nil _ _
    · split <;> exact List.cons_ne_nil _ _

theorem components_of_notMem {s : Str} (h : slash ∉ s) : components s = [s] := by
  induction s with
  | nil => rfl
  | cons c cs ih =>
    rw [List.mem_cons, not_or] at h
    rw [components, if_neg (Ne.symm h.1), ih h.2]

/-- **A slash between two strings** separates their names. -/
theorem components_append (a b : Str) :
    components (a ++ slash :: b) = components a ++ components b := by
  induction a with
  | nil => simp [components]
  | cons c cs ih =>
    rw [List.cons_append, components, components, ih]
    split_ifs
    · rfl
    · cases h : components cs with
      | nil => exact absurd h (components_ne_nil cs)
      | cons p ps => rfl

/-- The position of the last slash. -/
def findLastSlash : Str → Option ℕ
  | [] => none
  | c :: cs =>
    match findLastSlash cs with
    | some pos => some (pos + 1)
    | none => if c = slash then some 0 else none

theorem findLastSlash_lt {s : Str} {pos : ℕ} (h : findLastSlash s = some pos) : pos < s.length := by
  induction s generalizing pos with
  | nil => cases h
  | cons c cs ih =>
    rw [findLastSlash] at h
    split at h
    · rename_i k hk
      cases h
      exact Nat.succ_lt_succ (ih hk)
    · split_ifs at h
      cases h
      exact Nat.succ_pos _

theorem notMem_of_findLastSlash {s : Str} (h : findLastSlash s = none) : slash ∉ s := by
  induction s with
  | nil => exact List.not_mem_nil
  | cons c cs ih =>
    rw [findLastSlash] at h
    split at h
    · cases h
    · rename_i hcs
      split_ifs at h with hc
      rw [List.mem_cons, not_or]
      exact ⟨Ne.symm hc, ih hcs⟩

/-- **The last slash** splits off the last name. -/
theorem findLastSlash_split {s : Str} {pos : ℕ} (h : findLastSlash s = some pos) :
    s.take pos ++ slash :: s.drop (pos + 1) = s ∧ slash ∉ s.drop (pos + 1) := by
  induction s generalizing pos with
  | nil => cases h
  | cons c cs ih =>
    rw [findLastSlash] at h
    split at h
    · rename_i k hk
      cases h
      rw [List.take_succ_cons, List.drop_succ_cons, List.cons_append, (ih hk).1]
      exact ⟨rfl, (ih hk).2⟩
    · rename_i hcs
      split_ifs at h with hc
      cases h
      rw [hc]
      exact ⟨rfl, notMem_of_findLastSlash hcs⟩

theorem length_take_lt {s : Str} {pos : ℕ} (h : findLastSlash s = some pos) :
    (s.take pos).length < s.length := by
  have hlt := findLastSlash_lt h
  rw [List.length_take]
  omega

theorem take_findLastSlash {s : Str} {pos : ℕ} (h : findLastSlash s = some pos) :
    s.take pos ++ [slash] <+: s := by
  refine ⟨s.drop (pos + 1), ?_⟩
  rw [List.append_assoc]
  exact (findLastSlash_split h).1

theorem mem_components {s c : Str} (h : c ∈ components s) :
    slash ∉ c ∧ ∀ b ∈ c, b ∈ s := by
  induction s generalizing c with
  | nil =>
    rw [components, List.mem_singleton] at h
    simp [h]
  | cons b bs ih =>
    rw [components] at h
    split_ifs at h with hb
    · rcases List.mem_cons.mp h with rfl | h
      · simp
      · exact ⟨(ih h).1, fun x hx => List.mem_cons_of_mem _ ((ih h).2 x hx)⟩
    · cases hc : components bs with
      | nil => exact absurd hc (components_ne_nil bs)
      | cons p ps =>
        rw [hc] at h ih
        rcases List.mem_cons.mp h with rfl | h
        · obtain ⟨hp, hmem⟩ := ih List.mem_cons_self
          refine ⟨fun hs => ?_, fun x hx => ?_⟩
          · rcases List.mem_cons.mp hs with hs | hs
            · exact hb hs.symm
            · exact hp hs
          · rcases List.mem_cons.mp hx with rfl | hx
            · exact List.mem_cons_self
            · exact List.mem_cons_of_mem _ (hmem x hx)
        · obtain ⟨hp, hmem⟩ := ih (List.mem_cons_of_mem _ h)
          exact ⟨hp, fun x hx => List.mem_cons_of_mem _ (hmem x hx)⟩

theorem clean_of_mem_components {s c : Str} (h : c ∈ components (cstr s)) : Clean c :=
  ⟨fun h0 => notMem_cstr s ((mem_components h).2 0 h0), (mem_components h).1⟩

namespace Fs

def node (fs : Fs) (p : Path) : Option Node := if p = [] then some .dir else fs.nodes.lookup p

def IsDir (fs : Fs) (p : Path) : Prop := fs.node p = some .dir

instance (fs : Fs) (p : Path) : Decidable (fs.IsDir p) :=
  inferInstanceAs (Decidable (fs.node p = some .dir))

/-- Walk over names. What is left behind has to be a directory, the last name need not exist. -/
def walk (fs : Fs) : Path → List Str → Option Path
  | cur, [] => some cur
  | cur, c :: cs =>
    if fs.IsDir cur then
      if c = [] ∨ c = lit "." then fs.walk cur cs
      else if c = lit ".." then fs.walk cur.dropLast cs
      else fs.walk (cur ++ [c]) cs
    else none

/-- Where a list of names leads, from the root or from the working directory. -/
def start (fs : Fs) (s : Str) : Path := if s.head? = some slash then [] else fs.cwd

/-- The path that a string stands for; the empty string stands for none. -/
def resolve (fs : Fs) (s : Str) : Option Path :=
  if cstr s = [] then none else fs.walk (fs.start (cstr s)) (components (cstr s))

/-- The data of the file that a string stands for. -/
def contents (fs : Fs) (s : Str) : Option Str :=
  match (fs.resolve s).bind fs.node with
  | some (.file data) => some data
  | _ => none

/-! ## The calls -/

/-- A new or changed node. -/
def set (fs : Fs) (p : Path) (n : Node) : Fs := { fs with nodes := fs.nodes.insert p n }

/-- A deleted node. -/
def del (fs : Fs) (p : Path) : Fs := { fs with nodes := fs.nodes.erase p }

/-- The lowest descriptor that is not in use. -/
def freshFd (fs : Fs) : ℤ :=
  (((List.range (fs.fds.entries.length + 1)).map Int.ofNat).find? fun fd => fd ∉ fs.fds).getD 0

/-- A new descriptor for a path. -/
def allocate (fs : Fs) (p : Path) (flags : OpenFlags) : ℤ × Fs :=
  (fs.freshFd, { fs with fds := fs.fds.insert fs.freshFd ⟨p, flags.write, flags.append, 0⟩ })

def openFile (fs : Fs) (s : Str) (flags : OpenFlags) : ℤ × Fs :=
  match fs.resolve s with
  | none => (-1, fs)
  | some p =>
    match fs.node p with
    | none =>
      if flags.creat && !flags.directory then
        (fs.set p (.file [])).allocate p flags
      else (-1, fs)
    | some .dir => if flags.creat || flags.write then (-1, fs) else fs.allocate p flags
    | some (.file _) =>
      if flags.directory || (flags.creat && flags.excl) then (-1, fs) else fs.allocate p flags

/-- The data of a file after `buf` is written at `offset`. -/
def splice (data : Str) (offset : ℕ) (buf : Str) : Str :=
  data.take offset ++ List.replicate (offset - data.length) 0 ++ buf ++
    data.drop (offset + buf.length)

def write (fs : Fs) (fd : ℤ) (buf : Str) : ℤ × Fs :=
  match fs.fds.lookup fd with
  | none => (-1, fs)
  | some f =>
    match fs.node f.path with
    | some (.file data) =>
      if f.write then
        let offset := if f.append then data.length else f.offset
        (buf.length, { fs.set f.path (.file (splice data offset buf)) with
          fds := fs.fds.insert fd { f with offset := offset + buf.length } })
      else (-1, fs)
    | _ => (-1, fs)

/-- At most `count` bytes from the offset on. -/
def read (fs : Fs) (fd : ℤ) (count : ℕ) : Option Str × Fs :=
  match fs.fds.lookup fd with
  | none => (none, fs)
  | some f =>
    match fs.node f.path with
    | some (.file data) =>
      if f.write then (none, fs)
      else
        let out := (data.drop f.offset).take count
        (some out, { fs with fds := fs.fds.insert fd { f with offset := f.offset + out.length } })
    | _ => (none, fs)

/-- The size that `fstat` gives; a directory takes one block. -/
def fsize (fs : Fs) (fd : ℤ) : ℤ :=
  match fs.fds.lookup fd with
  | none => -1
  | some f =>
    match fs.node f.path with
    | some (.file data) => data.length
    | some .dir => 4096
    | none => 0

/-- Does the descriptor refer to a directory? -/
def isDirFd (fs : Fs) (fd : ℤ) : Option Bool :=
  (fs.fds.lookup fd).map fun f => decide (fs.IsDir f.path)

def close (fs : Fs) (fd : ℤ) : ℤ × Fs :=
  if fd ∈ fs.fds then (0, { fs with fds := fs.fds.erase fd }) else (-1, fs)

def unlink (fs : Fs) (s : Str) : ℤ × Fs :=
  match fs.resolve s with
  | none => (-1, fs)
  | some p =>
    match fs.node p with
    | some (.file _) => (0, fs.del p)
    | _ => (-1, fs)

/-- Trailing slashes of a new directory's path are ignored. -/
def stripSlashes (s : Str) : Str := (s.reverse.dropWhile fun b => b = slash).reverse

def mkdir (fs : Fs) (s : Str) : ℤ × Fs :=
  match fs.resolve (stripSlashes (cstr s)) with
  | none => (-1, fs)
  | some p =>
    match fs.node p with
    | none => (0, fs.set p .dir)
    | some _ => (-1, fs)

/-! ## Nodes -/

theorem ne_nil_of_node_none {fs : Fs} {p : Path} (h : fs.node p = none) : p ≠ [] := by
  rintro rfl
  cases h

theorem ne_nil_of_node_file {fs : Fs} {p : Path} {data : Str} (h : fs.node p = some (.file data)) :
    p ≠ [] := by
  rintro rfl
  cases h

theorem node_set (fs : Fs) {p : Path} (hp : p ≠ []) (n : Node) : (fs.set p n).node p = some n := by
  rw [node, if_neg hp, set, AList.lookup_insert]

theorem node_set_ne (fs : Fs) {p q : Path} (h : q ≠ p) (n : Node) :
    (fs.set p n).node q = fs.node q := by
  unfold node
  split_ifs
  · rfl
  · exact AList.lookup_insert_ne h

theorem node_del (fs : Fs) {p : Path} (hp : p ≠ []) : (fs.del p).node p = none := by
  rw [node, if_neg hp, del, AList.lookup_erase]

theorem node_del_ne (fs : Fs) {p q : Path} (h : q ≠ p) : (fs.del p).node q = fs.node q := by
  unfold node
  split_ifs
  · rfl
  · exact AList.lookup_erase_ne h

theorem of_contents {fs : Fs} {s data : Str} (h : fs.contents s = some data) :
    ∃ p, fs.resolve s = some p ∧ fs.node p = some (.file data) := by
  unfold contents at h
  split at h
  · rename_i data' hnode
    cases h
    exact Option.bind_eq_some_iff.mp hnode
  · cases h

@[simp] theorem set_set (fs : Fs) (p : Path) (m n : Node) : (fs.set p m).set p n = fs.set p n := by
  rw [set, set, set, AList.insert_insert]

@[simp] theorem node_allocate (fs : Fs) (p : Path) (flags : OpenFlags) (q : Path) :
    (fs.allocate p flags).2.node q = fs.node q := rfl

/-! ## Walking -/

theorem walk_append (fs : Fs) (cur : Path) (xs ys : List Str) :
    fs.walk cur (xs ++ ys) = (fs.walk cur xs).bind fun p => fs.walk p ys := by
  induction xs generalizing cur with
  | nil => rfl
  | cons x xs ih =>
    rw [List.cons_append, walk, walk]
    split_ifs
    · exact ih cur
    · exact ih cur.dropLast
    · exact ih (cur ++ [x])
    · rfl

/-- A name that is neither empty nor one of the two dots. -/
def Plain (c : Str) : Prop := c ≠ [] ∧ c ≠ lit "." ∧ c ≠ lit ".."

instance (c : Str) : Decidable (Plain c) := inferInstanceAs (Decidable (_ ∧ _ ∧ _))

/-- A name that does not begin with a dot. -/
theorem plain_of_head {b : UInt8} {c : Str} (hb : b ≠ 0x2e) : Plain (b :: c) := by
  refine ⟨List.cons_ne_nil _ _, fun h => hb ?_, fun h => hb ?_⟩
  · exact (List.cons.inj h).1
  · exact (List.cons.inj h).1

theorem walk_plain {fs : Fs} {cur : Path} {c : Str} (h : Plain c) (hd : fs.IsDir cur)
    (cs : List Str) : fs.walk cur (c :: cs) = fs.walk (cur ++ [c]) cs := by
  rw [walk, if_pos hd, if_neg (not_or.mpr ⟨h.1, h.2.1⟩), if_neg h.2.2]

/-- **An entry of a directory.** -/
theorem resolve_child {fs : Fs} {s c : Str} {p : Path} (h : fs.resolve s = some p)
    (hd : fs.IsDir p) (hs : 0 ∉ s) (h₀ : 0 ∉ c) (hslash : slash ∉ c) (hc : Plain c) :
    fs.resolve (s ++ slash :: c) = some (p ++ [c]) := by
  have hne : s ≠ [] := by
    rintro rfl
    cases h
  have hstart : fs.start (s ++ slash :: c) = fs.start s := by
    rw [start, start, List.head?_append_of_ne_nil s hne]
  have h0 : 0 ∉ s ++ slash :: c := by
    simp [hs, h₀, slash]
  rw [resolve, cstr_of_notMem hs, if_neg hne] at h
  rw [resolve, cstr_of_notMem h0, if_neg (by simp), hstart, components_append, walk_append, h,
    Option.bind_some, components_of_notMem hslash, walk_plain hc hd, walk]

/-- The last name of a path below a slash is the last name of what it stands for. -/
theorem resolve_child_inv {fs : Fs} {s c : Str} {p : Path} (h₀ : 0 ∉ s ++ slash :: c)
    (hslash : slash ∉ c) (hc : Plain c) (h : fs.resolve (s ++ slash :: c) = some p) :
    ∃ q, p = q ++ [c] := by
  rw [resolve, cstr_of_notMem h₀, if_neg (by simp), components_append, walk_append,
    components_of_notMem hslash] at h
  obtain ⟨q, -, hq⟩ := Option.bind_eq_some_iff.mp h
  rw [walk, if_neg (not_or.mpr ⟨hc.1, hc.2.1⟩), if_neg hc.2.2] at hq
  split_ifs at hq
  exact ⟨q, (Option.some.inj hq).symm⟩

/-! ## Growing -/

/-- Whatever is a directory stays one. -/
structure KeepsDirs (fs fs' : Fs) : Prop where
  cwd : fs'.cwd = fs.cwd
  isDir : ∀ p, fs.IsDir p → fs'.IsDir p

/-- Whatever exists stays as it is. -/
structure Grows (fs fs' : Fs) : Prop where
  cwd : fs'.cwd = fs.cwd
  node : ∀ p n, fs.node p = some n → fs'.node p = some n

theorem Grows.refl (fs : Fs) : fs.Grows fs := ⟨rfl, fun _ _ h => h⟩

theorem Grows.trans {fs₁ fs₂ fs₃ : Fs} (h : fs₁.Grows fs₂) (h' : fs₂.Grows fs₃) : fs₁.Grows fs₃ :=
  ⟨h'.cwd.trans h.cwd, fun p n hn => h'.node p n (h.node p n hn)⟩

theorem Grows.keepsDirs {fs fs' : Fs} (h : fs.Grows fs') : fs.KeepsDirs fs' :=
  ⟨h.cwd, fun p hp => h.node p .dir hp⟩

theorem grows_set {fs : Fs} {p : Path} (h : fs.node p = none) (n : Node) : fs.Grows (fs.set p n) :=
  ⟨rfl, fun q m hq => by
    rw [node_set_ne]
    · exact hq
    · rintro rfl
      rw [h] at hq
      cases hq⟩

theorem KeepsDirs.refl (fs : Fs) : fs.KeepsDirs fs := ⟨rfl, fun _ h => h⟩

theorem KeepsDirs.trans {fs₁ fs₂ fs₃ : Fs} (h : fs₁.KeepsDirs fs₂) (h' : fs₂.KeepsDirs fs₃) :
    fs₁.KeepsDirs fs₃ :=
  ⟨h'.cwd.trans h.cwd, fun p hp => h'.isDir p (h.isDir p hp)⟩

theorem keepsDirs_set_file {fs : Fs} {p : Path} (h : ¬ fs.IsDir p) (data : Str) :
    fs.KeepsDirs (fs.set p (.file data)) :=
  ⟨rfl, fun q hq => by
    unfold IsDir
    rw [node_set_ne]
    · exact hq
    · rintro rfl
      exact h hq⟩

theorem keepsDirs_del {fs : Fs} {p : Path} (h : ¬ fs.IsDir p) : fs.KeepsDirs (fs.del p) :=
  ⟨rfl, fun q hq => by
    unfold IsDir
    rw [node_del_ne]
    · exact hq
    · rintro rfl
      exact h hq⟩

/-- Only the descriptors differ. -/
structure SameTree (fs fs' : Fs) : Prop where
  nodes : fs'.nodes = fs.nodes
  cwd : fs'.cwd = fs.cwd

theorem SameTree.node {fs fs' : Fs} (h : fs.SameTree fs') (p : Path) : fs'.node p = fs.node p := by
  rw [Fs.node, Fs.node, h.nodes]

theorem SameTree.grows {fs fs' : Fs} (h : fs.SameTree fs') : fs.Grows fs' :=
  ⟨h.cwd, fun p _ hn => (h.node p).trans hn⟩

theorem sameTree_allocate (fs : Fs) (p : Path) (flags : OpenFlags) :
    fs.SameTree (fs.allocate p flags).2 := ⟨rfl, rfl⟩

theorem sameTree_close (fs : Fs) (fd : ℤ) : fs.SameTree (fs.close fd).2 := by
  unfold close
  split_ifs <;> exact ⟨rfl, rfl⟩

theorem SameTree.refl (fs : Fs) : fs.SameTree fs := ⟨rfl, rfl⟩

theorem SameTree.symm {fs fs' : Fs} (h : fs.SameTree fs') : fs'.SameTree fs :=
  ⟨h.nodes.symm, h.cwd.symm⟩

theorem SameTree.trans {fs₁ fs₂ fs₃ : Fs} (h : fs₁.SameTree fs₂) (h' : fs₂.SameTree fs₃) :
    fs₁.SameTree fs₃ := ⟨h'.nodes.trans h.nodes, h'.cwd.trans h.cwd⟩

/-- Without `O_CREAT` nothing is created. -/
theorem sameTree_openFile (fs : Fs) (s : Str) {flags : OpenFlags} (h : flags.creat = false) :
    fs.SameTree (fs.openFile s flags).2 := by
  unfold openFile
  rw [h]
  split
  · exact .refl fs
  · split
    · exact .refl fs
    · split_ifs
      · exact .refl fs
      · exact sameTree_allocate fs _ flags
    · split_ifs
      · exact .refl fs
      · exact sameTree_allocate fs _ flags

theorem sameTree_read (fs : Fs) (fd : ℤ) (count : ℕ) : fs.SameTree (fs.read fd count).2 := by
  unfold read
  split
  · exact .refl fs
  · split
    · split_ifs
      · exact .refl fs
      · exact ⟨rfl, rfl⟩
    · exact .refl fs

theorem grows_mkdir (fs : Fs) (s : Str) : fs.Grows (fs.mkdir s).2 := by
  unfold mkdir
  split
  · exact .refl fs
  · split
    · rename_i hp
      exact grows_set hp .dir
    · exact .refl fs

theorem KeepsDirs.walk {fs fs' : Fs} (h : fs.KeepsDirs fs') {cur p : Path} {cs : List Str}
    (hw : fs.walk cur cs = some p) : fs'.walk cur cs = some p := by
  induction cs generalizing cur with
  | nil => exact hw
  | cons c cs ih =>
    rw [Fs.walk] at hw ⊢
    split_ifs at hw with hd hc hc'
    · rw [if_pos (h.isDir _ hd), if_pos hc]
      exact ih hw
    · rw [if_pos (h.isDir _ hd), if_neg hc, if_pos hc']
      exact ih hw
    · rw [if_pos (h.isDir _ hd), if_neg hc, if_neg hc']
      exact ih hw

/-- A path that could be walked still leads to the same place. -/
theorem KeepsDirs.resolve {fs fs' : Fs} (h : fs.KeepsDirs fs') {s : Str} {p : Path}
    (hr : fs.resolve s = some p) : fs'.resolve s = some p := by
  rw [Fs.resolve] at hr ⊢
  split_ifs at hr with hs
  rw [if_neg hs]
  have hstart : fs'.start (cstr s) = fs.start (cstr s) := by rw [start, start, h.cwd]
  rw [hstart]
  exact h.walk hr

/-- Paths depend on the directories only. -/
theorem resolve_congr {fs fs' : Fs} (hcwd : fs'.cwd = fs.cwd) (h : ∀ p, fs'.IsDir p ↔ fs.IsDir p)
    (s : Str) : fs'.resolve s = fs.resolve s := by
  have hwalk (cur : Path) (cs : List Str) : fs'.walk cur cs = fs.walk cur cs := by
    induction cs generalizing cur with
    | nil => rfl
    | cons c cs ih => simp only [walk, h, ih]
  rw [resolve, resolve, hwalk, start, start, hcwd]

/-- A new file leads no path elsewhere. -/
theorem resolve_set_file {fs : Fs} {p : Path} (hp : fs.node p = none) (data s : Str) :
    (fs.set p (.file data)).resolve s = fs.resolve s := by
  have hcwd : (fs.set p (.file data)).cwd = fs.cwd := rfl
  refine resolve_congr hcwd (fun q => ?_) s
  rw [IsDir, IsDir]
  rcases eq_or_ne q p with rfl | hne
  · simp [node_set fs (ne_nil_of_node_none hp), hp]
  · rw [node_set_ne fs hne]

theorem contents_eq {fs : Fs} {s data : Str} {p : Path} (hr : fs.resolve s = some p)
    (hp : fs.node p = some (.file data)) : fs.contents s = some data := by
  rw [contents, hr, Option.bind_some, hp]

/-- **A new file** is what is found under the paths that lead to it. -/
theorem contents_set_file_iff {fs : Fs} {p : Path} (hp : fs.node p = none) (data s : Str) :
    (fs.set p (.file data)).contents s = some data ↔
      fs.resolve s = some p ∨ fs.contents s = some data := by
  have hr := resolve_set_file hp data s
  cases hs : fs.resolve s with
  | none =>
    rw [hs] at hr
    simp [contents, hr, hs]
  | some q =>
    rw [hs] at hr
    rcases eq_or_ne q p with rfl | hne
    · simp [contents_eq hr (node_set fs (ne_nil_of_node_none hp) (.file data))]
    · simp [contents, hr, hs, node_set_ne fs hne, hne]

/-! ## Deleting -/

theorem keepsDirs_unlink (fs : Fs) (s : Str) : fs.KeepsDirs (fs.unlink s).2 := by
  unfold unlink
  split
  · exact .refl fs
  · split
    · rename_i data hp
      exact keepsDirs_del (by simp [IsDir, hp])
    · exact .refl fs

theorem node_unlink_ne {fs : Fs} {s : Str} {q : Path} (h : fs.resolve s ≠ some q) :
    (fs.unlink s).2.node q = fs.node q := by
  unfold unlink
  split
  · rfl
  · rename_i p hr
    split
    · exact node_del_ne fs fun hq => h (hr.trans (congrArg some hq.symm))
    · rfl

/-! ## Descriptors -/

theorem freshFd_notMem (fs : Fs) : fs.freshFd ∉ fs.fds := by
  obtain ⟨xs, hxs⟩ : ∃ xs, xs = (List.range (fs.fds.entries.length + 1)).map Int.ofNat := ⟨_, rfl⟩
  have hnd : xs.Nodup := by
    rw [hxs]
    exact List.nodup_range.map fun a b h => Int.ofNat.inj h
  -- there are more candidates than descriptors
  have hex : ∃ fd ∈ xs, fd ∉ fs.fds := by
    by_contra h
    push Not at h
    have hsub : xs ⊆ fs.fds.keys := fun fd hfd => AList.mem_keys.mp (h fd hfd)
    have hle := (hnd.subperm hsub).length_le
    rw [hxs, List.length_map, List.length_range, AList.keys, List.keys, List.length_map] at hle
    omega
  obtain ⟨fd, hfd, hfree⟩ := hex
  cases hf : xs.find? fun fd => fd ∉ fs.fds with
  | none =>
    have := List.find?_eq_none.mp hf fd hfd
    simp [hfree] at this
  | some fd' =>
    have := List.find?_some hf
    rw [freshFd, ← hxs, hf, Option.getD_some]
    simpa using this

theorem freshFd_nonneg (fs : Fs) : 0 ≤ fs.freshFd := by
  unfold freshFd
  cases h : ((List.range (fs.fds.entries.length + 1)).map Int.ofNat).find? fun fd => fd ∉ fs.fds with
  | none => exact le_refl _
  | some fd =>
    obtain ⟨n, -, rfl⟩ := List.mem_map.mp (List.mem_of_find?_eq_some h)
    exact Int.natCast_nonneg n

theorem allocate_fst_ne (fs : Fs) (p : Path) (flags : OpenFlags) :
    (fs.allocate p flags).1 ≠ -1 := by
  have := freshFd_nonneg fs
  show fs.freshFd ≠ -1
  omega

theorem lookup_allocate (fs : Fs) (p : Path) (flags : OpenFlags) :
    (fs.allocate p flags).2.fds.lookup (fs.allocate p flags).1 =
      some ⟨p, flags.write, flags.append, 0⟩ := AList.lookup_insert _

theorem erase_insert_fresh (fs : Fs) (f : OpenFile) :
    (fs.fds.insert fs.freshFd f).erase fs.freshFd = fs.fds := by
  apply AList.ext
  show List.kerase fs.freshFd (fs.fds.insert fs.freshFd f).entries = fs.fds.entries
  rw [AList.entries_insert_of_notMem fs.freshFd_notMem]
  exact List.eraseP_cons_of_pos (by simp)

/-! ## Reading and writing -/

theorem write_file {fs : Fs} {fd : ℤ} {f : OpenFile} {old : Str} (hfd : fs.fds.lookup fd = some f)
    (hf : fs.node f.path = some (.file old)) (hw : f.write = true) (buf : Str) :
    ∃ f', f'.path = f.path ∧ fs.write fd buf = ((buf.length : ℤ),
      { fs.set f.path (.file (splice old (if f.append then old.length else f.offset) buf)) with
        fds := fs.fds.insert fd f' }) := by
  refine ⟨{ f with offset := (if f.append then old.length else f.offset) + buf.length }, rfl, ?_⟩
  rw [write, hfd]
  simp only [hf]
  rw [if_pos hw]

theorem read_file {fs : Fs} {fd : ℤ} {f : OpenFile} {data : Str} (hfd : fs.fds.lookup fd = some f)
    (hf : fs.node f.path = some (.file data)) (hw : f.write = false) (count : ℕ) :
    ∃ f', f'.path = f.path ∧ fs.read fd count =
      (some ((data.drop f.offset).take count), { fs with fds := fs.fds.insert fd f' }) := by
  refine ⟨{ f with offset := f.offset + ((data.drop f.offset).take count).length }, rfl, ?_⟩
  rw [read, hfd]
  simp only [hf]
  rw [if_neg (by simp [hw])]

theorem length_read (fs : Fs) (fd : ℤ) (count : ℕ) (out : Str)
    (h : (fs.read fd count).1 = some out) :
    out.length ≤ count := by
  unfold read at h
  split at h
  · cases h
  · split at h
    · split_ifs at h
      cases h
      exact List.length_take_le _ _
    · cases h

@[simp] theorem splice_nil (buf : Str) : splice [] 0 buf = buf := by simp [splice]

/-- Writing at the end. -/
@[simp] theorem splice_length (data buf : Str) : splice data data.length buf = data ++ buf := by
  simp [splice]

/-! ## New directories -/

theorem mkdir_new {fs : Fs} {s : Str} {p : Path} (h₀ : 0 ∉ s) (hs : stripSlashes s = s)
    (hr : fs.resolve s = some p) (hp : fs.node p = none) : fs.mkdir s = (0, fs.set p .dir) := by
  rw [mkdir, cstr_of_notMem h₀, hs, hr]
  simp only [hp]

theorem stripSlashes_append {c : Str} (hc : c ≠ []) (hslash : slash ∉ c) (s : Str) :
    stripSlashes (s ++ c) = s ++ c := by
  obtain ⟨c, b, rfl⟩ := List.eq_nil_or_concat c |>.resolve_left hc
  have hb : b ≠ slash := by
    rintro rfl
    simp at hslash
  simp [stripSlashes, hb]

/-- **A new directory in a directory.** -/
theorem mkdir_child {fs : Fs} {s c : Str} {p : Path} (h : fs.resolve s = some p)
    (hd : fs.IsDir p) (hs : 0 ∉ s) (h₀ : 0 ∉ c) (hslash : slash ∉ c) (hc : Plain c)
    (hp : fs.node (p ++ [c]) = none) : fs.mkdir (s ++ slash :: c) = (0, fs.set (p ++ [c]) .dir) := by
  refine mkdir_new ?_ ?_ (resolve_child h hd hs h₀ hslash hc) hp
  · simp [hs, h₀, slash]
  · rw [List.append_cons]
    exact stripSlashes_append hc.1 hslash _

end Fs

end Lib.Posix
