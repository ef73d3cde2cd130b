import Jxtd.Lib.Run
import Jxtd.Dadga.Files

/-!
# The adapter as a store

What an adapter is for: areas that hold files by name, one of them for every task. A client has an
area of its own for the persistent files, and nothing in one area shows in another one. A server has
its persistent files in the root, where the names of its tasks are taken.

* `Store`: the files of the areas and the known tasks; `Store.step`: what a call does to them.
* `Represents`: the directory tree of an adapter holds the files of a store.
* `Represents.puts`, `Represents.createTask`, `Represents.taskDone`: the steps.
* `represents_new`: a new adapter holds nothing.
* **`adapter_refines_store`**: every call of every run returns what the store returns.
-/

namespace Jxtd.Dadga

open Lib Lib.Posix

/-! ## The store -/

/-- Where the files of an area are. -/
def Area.home (client : Bool) : Area → Area
  | .root => .root
  | .persistent => if client then .persistent else .root
  | .task taskid => .task taskid

/-- The known tasks and the files of every area. A task that is not known has none, and the name of
a task of a server is not that of a file. -/
@[ext]
structure Store (client : Bool) where
  known : Name → Bool
  cell : Area × Name → Option Str
  gone : ∀ taskid name, known taskid = false → cell (.task taskid, name) = none
  apart : client = false → ∀ taskid, known taskid = true → cell (.root, taskid) = none

namespace Store

variable {client : Bool}

/-- Without tasks and files. -/
def empty (client : Bool) : Store client :=
  ⟨fun _ => false, fun _ => none, fun _ _ _ => rfl, fun _ _ _ => rfl⟩

/-- A name that can stand for a file: below the root, the names of directories are taken, and a task
has to be known. -/
def usable (st : Store client) : Area → Name → Bool
  | .root, name =>
    if client then name.1 ≠ lit "persistent" ∧ name.1 ≠ lit "runtime" else !st.known name
  | .persistent, _ => client
  | .task taskid, _ => st.known taskid

/-- One file is replaced. -/
def put (st : Store client) (area : Area) (name : Name) (data : Option Str)
    (h : st.usable area name = true) : Store client where
  known := st.known
  cell := Function.update st.cell (area, name) data
  gone taskid name' hgone := by
    rw [Function.update_of_ne]
    · exact st.gone taskid name' hgone
    · rintro heq
      cases heq
      rw [usable, hgone] at h
      cases h
  apart hserver taskid hknown := by
    rw [Function.update_of_ne]
    · exact st.apart hserver taskid hknown
    · rintro heq
      cases heq
      simp [usable, hserver, hknown] at h

/-- A task is known now. -/
def create (st : Store client) (taskid : Name)
    (h : client = true ∨ st.cell (.root, taskid) = none) : Store client where
  known := Function.update st.known taskid true
  cell := st.cell
  gone taskid' name hgone := by
    by_cases heq : taskid' = taskid
    · rw [heq, Function.update_self] at hgone
      cases hgone
    · rw [Function.update_of_ne heq] at hgone
      exact st.gone taskid' name hgone
  apart hserver taskid' hknown := by
    by_cases heq : taskid' = taskid
    · rw [heq]
      exact h.resolve_left (by simp [hserver])
    · rw [Function.update_of_ne heq] at hknown
      exact st.apart hserver taskid' hknown

/-- A task is forgotten with its files. -/
def forget (st : Store client) (taskid : Name) : Store client where
  known := Function.update st.known taskid false
  cell x := if x.1 = .task taskid then none else st.cell x
  gone taskid' name h := by
    by_cases heq : taskid' = taskid
    · rw [heq, if_pos rfl]
    · rw [Function.update_of_ne heq] at h
      rw [st.gone taskid' name h, ite_self]
  apart hserver taskid' hknown := by
    by_cases heq : taskid' = taskid
    · rw [heq, Function.update_self] at hknown
      cases hknown
    · rw [Function.update_of_ne heq] at hknown
      rw [st.apart hserver taskid' hknown, ite_self]

/-- The copy of a file that is there. -/
def copy (st : Store client) (source target : Area × Name) : Reply × Store client :=
  if h : st.usable target.1 target.2 = true then
    match st.cell source with
    | none => (.copied none, st)
    | some data => (.copied (some data.length), st.put target.1 target.2 (some data) h)
  else (.copied none, st)

/-- A call. -/
def step (st : Store client) : Op → Reply × Store client
  | .createTask taskid =>
    if h : client = true ∨ st.cell (.root, taskid) = none then (.done true, st.create taskid h)
    else (.done false, st)
  | .taskDone taskid =>
    if st.known taskid then (.done true, st.forget taskid) else (.done false, st)
  | .read area name =>
    let area := area.home client
    (.text (if st.usable area name then (st.cell (area, name)).bind fromUtf8 else none), st)
  | .write area mode name content =>
    let area := area.home client
    if h : st.usable area name = true then
      let (ok, data) := writeCell mode (st.cell (area, name)) content
      (.done ok, st.put area name data h)
    else (.done false, st)
  | .remove area name =>
    let area := area.home client
    if h : st.usable area name = true then (.done true, st.put area name none h)
    else (.done false, st)
  | .persistentToRuntime persistent taskid taskPath =>
    if st.known taskid then
      st.copy (Area.persistent.home client, persistent) (.task taskid, taskPath)
    else (.copied none, st)
  | .runtimeToPersistent persistent taskid taskPath =>
    if st.known taskid then
      st.copy (.task taskid, taskPath) (Area.persistent.home client, persistent)
    else (.copied none, st)

end Store

/-! ## Places -/

section Places

variable {client : Bool} {s : State} {st : Store client} {x y : Area × Name} {taskid : Name}

/-- The place of a file. -/
def placeOf (client : Bool) (s : State) (x : Area × Name) : Path :=
  base s.fs.cwd s.adapter.root ++ (x.1.names client ++ [x.2.1])

/-- The place of the directory of a task. -/
def taskPlace (client : Bool) (s : State) (taskid : Name) : Path :=
  base s.fs.cwd s.adapter.root ++ (Area.task taskid).names client

theorem names_home (area : Area) : (area.home client).names client = area.names client := by
  cases area <;> cases client <;> rfl

theorem placeOf_home (area : Area) (name : Name) :
    placeOf client s (area.home client, name) = placeOf client s (area, name) := by
  rw [placeOf, names_home, placeOf]

/-- Different files have different places. -/
theorem placeOf_ne (hx : st.usable x.1 x.2 = true) (hy : st.usable y.1 y.2 = true) (h : x ≠ y) :
    placeOf client s x ≠ placeOf client s y := by
  intro heq
  have hnames := List.append_cancel_left heq
  obtain ⟨area, name⟩ := x
  obtain ⟨area', name'⟩ := y
  apply h
  cases client with
  | true => cases area <;> cases area' <;> simp_all [Area.names, Subtype.ext_iff]
  | false => cases area <;> cases area' <;> simp_all [Area.names, Subtype.ext_iff, Store.usable]

/-- A persistent file is no file of a task. -/
theorem placeOf_persistent_ne (name name' : Name) :
    placeOf client s (.persistent, name) ≠ placeOf client s (.task taskid, name') := by
  intro heq
  have hlen := congrArg List.length (List.append_cancel_left heq)
  cases client <;> simp [Area.names] at hlen

/-- A file of a client is no directory of the adapter. -/
theorem names_ne_dir {st : Store true} (hx : st.usable x.1 x.2 = true) {name : Str}
    (hname : name = lit "persistent" ∨ name = lit "runtime") :
    x.1.names true ++ [x.2.1] ≠ [name] := by
  intro hnames
  obtain ⟨area, name'⟩ := x
  cases area with
  | root =>
    simp only [Store.usable, if_true, decide_eq_true_eq] at hx
    simp only [Area.names, List.nil_append, List.cons.injEq, and_true] at hnames
    rcases hname with rfl | rfl
    · exact hx.1 hnames
    · exact hx.2 hnames
  | persistent => simp [Area.names] at hnames
  | task taskid => simp [Area.names] at hnames

/-- What is at the directory of a task or below it belongs to the task, or is a file of a server that
has its name. -/
theorem area_of_above (hy : st.usable y.1 y.2 = true)
    (hpre : taskPlace client s taskid <+: placeOf client s y) :
    y.1 = .task taskid ∨ client = false ∧ y = (.root, taskid) := by
  have hnames := (List.prefix_append_right_inj _).mp hpre
  obtain ⟨area, name⟩ := y
  cases client with
  | true =>
    left
    cases area with
    | root => simpa [Area.names] using hnames.length_le
    | persistent =>
      have hne : lit "runtime" ≠ lit "persistent" := by decide
      simp [Area.names, hne] at hnames
    | task taskid' =>
      simp only [Area.names, if_true, List.cons_append, List.cons_prefix_cons, true_and] at hnames
      rw [Subtype.ext hnames.1]
  | false =>
    cases area with
    | root =>
      simp only [Area.names, Bool.false_eq_true, if_false, List.nil_append, List.cons_prefix_cons,
        List.prefix_rfl, and_true] at hnames
      rw [Subtype.ext hnames]
      exact .inr ⟨rfl, rfl⟩
    | persistent => cases hy
    | task taskid' =>
      simp only [Area.names, Bool.false_eq_true, if_false, List.cons_append, List.cons_prefix_cons]
        at hnames
      rw [Subtype.ext hnames.1]
      exact .inl rfl

/-- A file is no directory of a task. -/
theorem placeOf_ne_task (hx : st.usable x.1 x.2 = true) (h : client = true ∨ st.known taskid = true) :
    taskPlace client s taskid ≠ placeOf client s x := by
  intro heq
  have hpre : taskPlace client s taskid <+: placeOf client s x := heq ▸ List.prefix_rfl
  rcases area_of_above hx hpre with htask | ⟨hserver, rfl⟩
  · have hlen := congrArg List.length (List.append_cancel_left heq)
    rw [htask] at hlen
    simp at hlen
  · have hknown := h.resolve_left (by simp [hserver])
    simp [Store.usable, hserver, hknown] at hx

theorem taskPlace_ne_nil : taskPlace client s taskid ≠ [] := by
  cases client <;> simp [taskPlace, Area.names]

/-- The directories of two tasks are apart. -/
theorem eq_of_taskPlace {id : Name} (h : taskPlace client s taskid <+: taskPlace client s id) :
    id = taskid := by
  have hnames := (List.prefix_append_right_inj _).mp h
  cases client with
  | true =>
    simp only [Area.names, if_true, List.cons_prefix_cons, List.prefix_rfl, and_true,
      true_and] at hnames
    exact Subtype.ext hnames.symm
  | false =>
    simp only [Area.names, Bool.false_eq_true, if_false, List.cons_prefix_cons, List.prefix_rfl,
      and_true] at hnames
    exact Subtype.ext hnames.symm

end Places

/-! ## Trees that hold a store -/

/-- The tree of an adapter holds the files of the store. -/
structure Represents {client : Bool} (s : State) (st : Store client) : Prop where
  wellFormed : s.fs.WellFormed
  zero : 0 ∉ s.adapter.root
  up : lit ".." ∉ components s.adapter.root
  persistent : s.adapter.persistent = areaDir client s.adapter.root .persistent
  runtime : s.adapter.runtime =
    if client then join s.adapter.root (lit "runtime") else s.adapter.root
  keys : ∀ taskid ∈ s.adapter.tasks, Component taskid
  lookup : ∀ taskid : Name, s.adapter.tasks.lookup taskid.1 =
    if st.known taskid then some (areaDir client s.adapter.root (.task taskid)) else none
  root : s.fs.IsDir (base s.fs.cwd s.adapter.root)
  /-- The two directories of a client. -/
  dirs : client = true → ∀ name, name = lit "persistent" ∨ name = lit "runtime" →
    s.fs.IsDir (base s.fs.cwd s.adapter.root ++ [name])
  tasks : ∀ taskid, st.known taskid = true → s.fs.IsDir (taskPlace client s taskid)
  free : client = true → ∀ taskid, st.known taskid = false →
    s.fs.node (taskPlace client s taskid) = none
  cells : ∀ x : Area × Name, st.usable x.1 x.2 = true →
    s.fs.node (placeOf client s x) = (st.cell x).map .file

namespace Represents

variable {client : Bool} {s : State} {st : Store client} {tokio : TokioFs}

/-- The directory of an area is there, if it is that of a known task. -/
theorem isDir (h : Represents s st) {area : Area} (harea : ∀ taskid, area = .task taskid →
    st.known taskid = true) : s.fs.IsDir (base s.fs.cwd s.adapter.root ++ area.names client) := by
  cases area with
  | root =>
    rw [Area.names, List.append_nil]
    exact h.root
  | persistent =>
    cases client with
    | true => exact h.dirs rfl _ (.inl rfl)
    | false =>
      have hroot := h.root
      rwa [← List.append_nil (base s.fs.cwd s.adapter.root)] at hroot
  | task taskid => exact h.tasks taskid (harea taskid rfl)

/-- **A name in an area** leads to its place. -/
theorem resolve (h : Represents s st) (area : Area) (harea : ∀ taskid, area = .task taskid →
    st.known taskid = true) (name : Name) :
    0 ∉ join (areaDir client s.adapter.root area) name ∧
      s.fs.resolve (join (areaDir client s.adapter.root area) name) =
        some (placeOf client s (area, name)) := by
  have hd := h.isDir harea
  rw [← base_areaDir] at hd
  have hresolve := resolve_join h.wellFormed (notMem_areaDir h.zero client area)
    (up_areaDir h.up client area) hd name
  rwa [base_areaDir, List.append_assoc] at hresolve

theorem known_of_usable {area : Area} {name : Name}
    (h : st.usable (area.home client) name = true) :
    ∀ taskid, area = .task taskid → st.known taskid = true := by
  rintro taskid rfl
  exact h

/-- **A usable name in an area** leads to the place where its file is. -/
theorem resolve_home (h : Represents s st) {area : Area} {name : Name}
    (hx : st.usable (area.home client) name = true) :
    0 ∉ join (areaDir client s.adapter.root area) name ∧
      s.fs.resolve (join (areaDir client s.adapter.root area) name) =
        some (placeOf client s (area.home client, name)) := by
  rw [placeOf_home]
  exact h.resolve area (known_of_usable hx) name

theorem not_isDir (h : Represents s st) {x : Area × Name} (hx : st.usable x.1 x.2 = true) :
    ¬ s.fs.IsDir (placeOf client s x) :=
  Fs.not_isDir_of_node (h.cells x hx)

theorem fileAt (h : Represents s st) {x : Area × Name} (hx : st.usable x.1 x.2 = true) :
    s.fs.fileAt (placeOf client s x) = st.cell x :=
  Fs.fileAt_of_node (h.cells x hx)

/-- **One file is replaced**, in the tree and in the store. -/
theorem puts (h : Represents s st) {x : Area × Name} (hx : st.usable x.1 x.2 = true) {fs' : Fs}
    {data : Option Str} (hputs : s.fs.Puts fs' (placeOf client s x) data) :
    Represents ⟨s.adapter, fs'⟩ (st.put x.1 x.2 data hx) where
  wellFormed := by
    have hknown : ∀ taskid, x.1 = .task taskid → st.known taskid = true := by
      intro taskid hx₁
      rw [hx₁] at hx
      exact hx
    refine hputs.wellFormed h.wellFormed ?_ (h.not_isDir hx)
    rw [placeOf, ← List.append_assoc, List.dropLast_concat]
    exact h.isDir hknown
  zero := h.zero
  up := h.up
  persistent := h.persistent
  runtime := h.runtime
  keys := h.keys
  lookup := h.lookup
  root := by
    have hne : base s.fs.cwd s.adapter.root ≠ placeOf client s x := by simp [placeOf]
    rw [hputs.cwd, Fs.IsDir, hputs.others _ hne]
    exact h.root
  dirs hclient name hname := by
    subst hclient
    have hne : base s.fs.cwd s.adapter.root ++ [name] ≠ placeOf true s x :=
      fun heq => names_ne_dir hx hname (List.append_cancel_left heq).symm
    rw [hputs.cwd, Fs.IsDir, hputs.others _ hne]
    exact h.dirs rfl name hname
  tasks taskid hknown := by
    have hplace : taskPlace client ⟨s.adapter, fs'⟩ taskid = taskPlace client s taskid := by
      rw [taskPlace, hputs.cwd, taskPlace]
    rw [hplace, Fs.IsDir, hputs.others _ (placeOf_ne_task hx (.inr hknown))]
    exact h.tasks taskid hknown
  free hclient taskid hknown := by
    have hplace : taskPlace client ⟨s.adapter, fs'⟩ taskid = taskPlace client s taskid := by
      rw [taskPlace, hputs.cwd, taskPlace]
    rw [hplace, hputs.others _ (placeOf_ne_task hx (.inl hclient))]
    exact h.free hclient taskid hknown
  cells y hy := by
    have hplace : placeOf client ⟨s.adapter, fs'⟩ y = placeOf client s y := by
      rw [placeOf, hputs.cwd, placeOf]
    have hcell : (st.put x.1 x.2 data hx).cell = Function.update st.cell x data := rfl
    rw [hplace, hcell]
    by_cases hyx : y = x
    · rw [hyx, hputs.here, Function.update_self]
    · rw [hputs.others _ (@placeOf_ne client s st y x hy hx hyx), h.cells y hy, Function.update_of_ne hyx]

theorem put_self (h : Represents s st) {x : Area × Name} (hx : st.usable x.1 x.2 = true) :
    Represents s (st.put x.1 x.2 (st.cell x) hx) := by
  have hputs := Fs.Puts.refl (h.not_isDir hx)
  rw [h.fileAt hx] at hputs
  exact h.puts hx hputs

theorem mem_tasks_iff (h : Represents s st) (taskid : Name) :
    taskid.1 ∈ s.adapter.tasks ↔ st.known taskid = true := by
  rw [← AList.lookup_isSome, h.lookup taskid]
  split_ifs with hknown
  · exact iff_of_true rfl hknown
  · exact iff_of_false Bool.false_ne_true hknown

/-! ### The directory of the tasks -/

theorem runtime_join (h : Represents s st) (taskid : Name) :
    join s.adapter.runtime taskid.1 = areaDir client s.adapter.root (.task taskid) := by
  rw [h.runtime]
  rfl

theorem runtime_zero (h : Represents s st) : 0 ∉ s.adapter.runtime := by
  rw [h.runtime]
  split_ifs
  · exact notMem_join h.zero component_runtime
  · exact h.zero

theorem runtime_up (h : Represents s st) : lit ".." ∉ components s.adapter.runtime := by
  rw [h.runtime]
  split_ifs
  · exact up_join h.up component_runtime
  · exact h.up

theorem base_runtime (h : Represents s st) (taskid : Name) :
    base s.fs.cwd s.adapter.runtime ++ [taskid.1] = taskPlace client s taskid := by
  rw [h.runtime, taskPlace]
  cases client with
  | true =>
    rw [if_pos rfl, base_join component_runtime, List.append_assoc]
    rfl
  | false => rfl

theorem isDir_runtime (h : Represents s st) : s.fs.IsDir (base s.fs.cwd s.adapter.runtime) := by
  rw [h.runtime]
  split_ifs with hclient
  · rw [base_join component_runtime]
    exact h.dirs hclient _ (.inr rfl)
  · exact h.root

/-- What happens at the directory of a task happens there only. -/
theorem createDirAll_task (h : Represents s st) (taskid : Name) :
    s.fs.createDirAll (join s.adapter.runtime taskid) =
      s.fs.createDirs (base s.fs.cwd s.adapter.runtime) [taskid.1] :=
  createDirAll_join h.wellFormed h.runtime_zero h.runtime_up h.isDir_runtime taskid.2

/-- The place of the directory of a task. -/
theorem taskDir_eq (h : Represents s st) (taskid : Name) :
    taskDir s taskid = taskPlace client s taskid := by
  rw [taskDir, place_join h.runtime_zero taskid.2, h.base_runtime]

/-- **A task gets a directory or loses it**, in the tree and in the store. -/
theorem retask (h : Represents s st) (taskid : Name) (known : Bool) {st' : Store client} {s' : State}
    (hname : client = false → st.cell (.root, taskid) = none)
    (hwf : s'.fs.WellFormed) (hcwd : s'.fs.cwd = s.fs.cwd)
    (hnode : ∀ q, s'.fs.node q =
      if taskPlace client s taskid <+: q then
        if known ∧ q = taskPlace client s taskid then some .dir else none
      else s.fs.node q)
    (hadapter : ∃ tasks, s'.adapter = { s.adapter with tasks := tasks })
    (hlookup : ∀ id, s'.adapter.tasks.lookup id =
      if id = taskid.1 then
        if known then some (areaDir client s.adapter.root (.task taskid)) else none
      else s.adapter.tasks.lookup id)
    (hknown : st'.known = Function.update st.known taskid known)
    (hcell : ∀ y, st'.cell y = if y.1 = .task taskid then none else st.cell y) :
    Represents s' st' := by
  obtain ⟨tasks, hadapter⟩ := hadapter
  have hroot : s'.adapter.root = s.adapter.root := by rw [hadapter]
  have hplace (y : Area × Name) : placeOf client s' y = placeOf client s y := by
    rw [placeOf, hcwd, hroot, placeOf]
  have htask (id : Name) : taskPlace client s' id = taskPlace client s id := by
    rw [taskPlace, hcwd, hroot, taskPlace]
  constructor
  · exact hwf
  · rw [hroot]
    exact h.zero
  · rw [hroot]
    exact h.up
  · rw [hadapter]
    exact h.persistent
  · rw [hadapter]
    exact h.runtime
  · intro id hid
    rw [← AList.lookup_isSome, hlookup] at hid
    split_ifs at hid with heq
    · rw [heq]
      exact taskid.2
    · rw [heq]
      exact taskid.2
    · exact h.keys id (AList.lookup_isSome.mp hid)
  · intro id
    rw [hlookup, hroot, hknown]
    by_cases heq : id = taskid
    · rw [heq, if_pos rfl, Function.update_self]
    · rw [if_neg fun hval => heq (Subtype.ext hval), Function.update_of_ne heq]
      exact h.lookup id
  · rw [hcwd, hroot, Fs.IsDir, hnode, if_neg]
    · exact h.root
    · intro hpre
      have hlen := hpre.length_le
      cases client <;> simp [taskPlace, Area.names] at hlen
  · rintro rfl name hname
    rw [hcwd, hroot, Fs.IsDir, hnode, if_neg]
    · exact h.dirs rfl name hname
    · intro hpre
      simpa [taskPlace, Area.names] using hpre.length_le
  · intro id hid
    rw [htask, Fs.IsDir, hnode]
    rw [hknown] at hid
    by_cases heq : id = taskid
    · rw [heq, Function.update_self] at hid
      rw [heq, if_pos List.prefix_rfl, if_pos ⟨hid, rfl⟩]
    · rw [Function.update_of_ne heq] at hid
      rw [if_neg fun hpre => heq (eq_of_taskPlace hpre)]
      exact h.tasks id hid
  · intro hclient id hid
    rw [htask, hnode]
    rw [hknown] at hid
    by_cases heq : id = taskid
    · rw [heq, Function.update_self] at hid
      rw [heq, if_pos List.prefix_rfl, if_neg (by simp [hid])]
    · rw [Function.update_of_ne heq] at hid
      rw [if_neg fun hpre => heq (eq_of_taskPlace hpre)]
      exact h.free hclient id hid
  · intro y hy
    rw [hplace, hnode, hcell]
    by_cases hy' : y.1 = .task taskid
    · have hbelow : placeOf client s y = taskPlace client s taskid ++ [y.2.1] := by
        rw [placeOf, hy', taskPlace, List.append_assoc]
      have hne : ¬ (known ∧ placeOf client s y = taskPlace client s taskid) := by
        rintro ⟨-, hsame⟩
        rw [hbelow] at hsame
        simpa using congrArg List.length hsame
      rw [if_pos hy', hbelow, if_pos (List.prefix_append ..), ← hbelow, if_neg hne]
      rfl
    · rw [if_neg hy']
      split_ifs with hpre hsame
      · -- the name of a task of a server is no file
        rcases area_of_above hy hpre with harea | ⟨hserver, rfl⟩
        · exact absurd harea hy'
        · rw [Store.usable, hknown, Function.update_self] at hy
          simp [hserver, hsame.1] at hy
      · rcases area_of_above hy hpre with harea | ⟨hserver, rfl⟩
        · exact absurd harea hy'
        · rw [hname hserver]
          rfl
      · refine h.cells y ?_
        obtain ⟨area, name⟩ := y
        cases area with
        | root =>
          cases client with
          | true => exact hy
          | false =>
            have hid : name ≠ taskid := by
              rintro rfl
              exact hpre List.prefix_rfl
            rw [Store.usable, hknown, Function.update_of_ne hid] at hy
            exact hy
        | persistent => exact hy
        | task id =>
          have hid : id ≠ taskid := fun heq => hy' (by rw [heq])
          rw [Store.usable, hknown, Function.update_of_ne hid] at hy
          exact hy

/-- What has the name of a task that is not known. -/
theorem node_task (h : Represents s st) {taskid : Name} (hnew : st.known taskid = false) :
    s.fs.node (taskPlace client s taskid) =
      if client then none else (st.cell (.root, taskid)).map .file := by
  split_ifs with hclient
  · exact h.free hclient taskid hnew
  · obtain rfl := Bool.eq_false_of_not_eq_true hclient
    exact h.cells (.root, taskid) (by simp [Store.usable, hnew])

/-- **A new task** gets its directory, unless a file has its name. -/
theorem createTask (h : Represents s st) (taskid : Name) :
    ((Op.createTask taskid).apply tokio s).1 = (st.step (.createTask taskid)).1 ∧
      Represents ((Op.createTask taskid).apply tokio s).2 (st.step (.createTask taskid)).2 := by
  rw [Op.apply, Store.step]
  cases hknown : st.known taskid with
  | true =>
    have hmem := (h.mem_tasks_iff taskid).mpr hknown
    have hfree : client = true ∨ st.cell (.root, taskid) = none :=
      or_iff_not_imp_left.mpr fun hclient =>
        st.apart (Bool.eq_false_of_not_eq_true hclient) taskid hknown
    have hsame : st.create taskid hfree = st := by
      refine Store.ext ?_ rfl
      change Function.update st.known taskid true = st.known
      rw [← hknown, Function.update_eq_self]
    rw [FsAdapter.createTask, if_pos hmem, dif_pos hfree, hsame]
    exact ⟨rfl, h⟩
  | false =>
    have hmem : taskid.1 ∉ s.adapter.tasks := by
      rw [h.mem_tasks_iff, hknown]
      exact Bool.false_ne_true
    have hnode := h.node_task hknown
    have hmade := h.createDirAll_task taskid
    have hplace := h.base_runtime taskid
    rw [← hplace] at hnode
    by_cases hfree : client = true ∨ st.cell (.root, taskid) = none
    · have hnone : s.fs.node (base s.fs.cwd s.adapter.runtime ++ [taskid.1]) = none := by
        rw [hnode]
        rcases hfree with hclient | hcell
        · rw [if_pos hclient]
        · rw [hcell, Option.map_none, ite_self]
      have hwf := h.wellFormed.createDirAll (join s.adapter.runtime taskid)
      rw [Fs.createDirs_none taskid.2.2 hnone, hplace] at hmade
      rw [hplace] at hnone
      have heq : s.adapter.createTask s.fs taskid =
          (true, { s.adapter with
            tasks := s.adapter.tasks.insert taskid.1 (join s.adapter.runtime taskid) },
            s.fs.set (taskPlace client s taskid) .dir) := by
        rw [FsAdapter.createTask, if_neg hmem]
        dsimp only
        rw [hmade]
        rfl
      rw [hmade] at hwf
      rw [heq, dif_pos hfree]
      refine ⟨rfl, h.retask taskid true (fun hserver => ?_) hwf rfl (fun q => ?_) ⟨_, rfl⟩
        (fun id => ?_) rfl fun y => ?_⟩
      · exact hfree.resolve_left (by simp [hserver])
      · dsimp only
        by_cases hq : q = taskPlace client s taskid
        · rw [hq, Fs.node_set _ taskPlace_ne_nil, if_pos List.prefix_rfl, if_pos ⟨rfl, rfl⟩]
        · rw [Fs.node_set_ne _ hq]
          -- nothing is below a directory that is not there
          split_ifs with hpre hcase
          · exact absurd hcase.2 hq
          · by_contra hsome
            have hd := h.wellFormed.isDir_of_prefix hsome hpre hq
            rw [Fs.IsDir, hnone] at hd
            cases hd
          · rfl
      · dsimp only
        by_cases hid : id = taskid.1
        · rw [hid, AList.lookup_insert, h.runtime_join, if_pos rfl, if_pos rfl]
        · rw [if_neg hid, AList.lookup_insert_ne hid]
      · split_ifs with hy
        · obtain ⟨area, name⟩ := y
          cases hy
          exact st.gone taskid name hknown
        · rfl
    · obtain ⟨hserver, hcell⟩ := not_or.mp hfree
      obtain ⟨data, hdata⟩ := Option.ne_none_iff_exists'.mp hcell
      rw [if_neg hserver, hdata] at hnode
      have heq : s.adapter.createTask s.fs taskid = (false, s.adapter, s.fs) := by
        rw [FsAdapter.createTask, if_neg hmem]
        dsimp only
        rw [hmade, Fs.createDirs_file taskid.2.2 hnode]
        rfl
      rw [heq, dif_neg hfree]
      exact ⟨rfl, h⟩

/-- The tree is as the removal of directories needs it. -/
theorem inv (h : Represents s st) : Inv s where
  runtime := h.runtime_zero
  component := h.keys
  dir id hid := by
    have hknown := (h.mem_tasks_iff ⟨id, h.keys id hid⟩).mp hid
    rw [h.taskDir_eq ⟨id, h.keys id hid⟩]
    exact h.tasks _ hknown

theorem rooted (h : Represents s st) : Rooted s := ⟨h.wellFormed, h.runtime_up⟩

/-- **A task that is done** takes its files with it; a task that is not known is an error. -/
theorem taskDone (h : Represents s st) (taskid : Name) :
    ((Op.taskDone taskid).apply tokio s).1 = (st.step (.taskDone taskid)).1 ∧
      Represents ((Op.taskDone taskid).apply tokio s).2 (st.step (.taskDone taskid)).2 := by
  have hdir := h.taskDir_eq taskid
  rw [Op.apply, Store.step]
  split_ifs with hknown
  · have hmem := (h.mem_tasks_iff taskid).mpr hknown
    rcases taskDone_cases h.inv taskid.2 with ⟨-, hno⟩ | ⟨hd, ⟨hfound, -⟩ | ⟨-, heq⟩⟩
    · have hfound := found_of_rooted h.inv h.rooted taskid.2 hmem
      obtain ⟨p, hp⟩ := Option.ne_none_iff_exists'.mp hfound
      have hres := (Fs.keepsDirs_of_clear s.fs _).resolve hp
      obtain rfl : taskDir s taskid = p := Fs.resolve_eq_place hres
      exact absurd (h.inv.dir taskid hmem) (hno _ hres)
    · exact absurd (found_of_rooted h.inv h.rooted taskid.2 hmem) hfound
    · have hwf := (rooted_apply h.rooted (.taskDone taskid) : Rooted (Call.apply .std s _)).wellFormed
      rw [Call.apply, heq] at hwf
      rw [heq]
      refine ⟨rfl, h.retask taskid false (fun hserver => st.apart hserver taskid hknown) hwf
        (Fs.cwd_clear _ _) (fun q => ?_) ⟨_, rfl⟩ (fun id => ?_) rfl fun _ => rfl⟩
      · dsimp only
        rw [Fs.node_clear_del _ (taskDir_ne_nil h.inv taskid.2), hdir]
        simp
      · dsimp only
        by_cases hid : id = taskid.1
        · rw [hid, AList.lookup_erase, if_pos rfl]
          rfl
        · rw [if_neg hid, AList.lookup_erase_ne hid]
  · have hnode := h.node_task (Bool.eq_false_of_not_eq_true hknown)
    rw [← hdir] at hnode
    rcases taskDone_cases h.inv taskid.2 with ⟨heq, -⟩ | ⟨hd, -⟩
    · rw [heq]
      exact ⟨rfl, h⟩
    · rw [Fs.IsDir, hnode] at hd
      cases hcell : st.cell (.root, taskid) <;> simp [hcell] at hd

/-! ### Single files -/

/-- The path of an area in the table of the adapter. -/
theorem readOf_eq (h : Represents s st) {area : Area} (harea : ∀ taskid, area = .task taskid →
    st.known taskid = true) (name : Name) :
    readOf tokio s.adapter s.fs area name =
      tokio.readToString s.fs (join (areaDir client s.adapter.root area) name) := by
  cases area with
  | root => rfl
  | persistent => rw [readOf, FsAdapter.readPersistent, h.persistent]
  | task taskid => rw [readOf, FsAdapter.readTaskFile, h.lookup, if_pos (harea taskid rfl)]

theorem writeOf_eq (h : Represents s st) {area : Area} (harea : ∀ taskid, area = .task taskid →
    st.known taskid = true) (mode : WriteMode) (name : Name) (content : Str) :
    writeOf tokio s.adapter s.fs area mode name content =
      tokio.openWrite s.fs mode (join (areaDir client s.adapter.root area) name) content := by
  cases area with
  | root => cases mode <;> rfl
  | persistent =>
    rw [← h.persistent]
    cases mode <;> rfl
  | task taskid => rw [writeOf_task, h.lookup, if_pos (harea taskid rfl)]

theorem removeOf_eq (h : Represents s st) {area : Area} (harea : ∀ taskid, area = .task taskid →
    st.known taskid = true) (name : Name) :
    removeOf tokio s.adapter s.fs area name =
      FsAdapter.removeIfThere tokio s.fs (join (areaDir client s.adapter.root area) name) := by
  cases area with
  | root => rfl
  | persistent => rw [removeOf, FsAdapter.removePersistent, h.persistent]
  | task taskid => rw [removeOf, FsAdapter.removeTaskFile, h.lookup, if_pos (harea taskid rfl)]

/-- A name that cannot stand for a file: its task is not known, or it is that of a directory. -/
theorem of_not_usable (h : Represents s st) {area : Area} {name : Name}
    (hx : ¬ st.usable (area.home client) name = true) :
    (∃ taskid, area = .task taskid ∧ s.adapter.tasks.lookup taskid.1 = none) ∨
      (∀ taskid, area = .task taskid → st.known taskid = true) ∧
        s.fs.IsDir (placeOf client s (area, name)) := by
  cases area with
  | task taskid =>
    refine .inl ⟨taskid, rfl, ?_⟩
    rw [h.lookup]
    exact if_neg hx
  | root =>
    refine .inr ⟨fun taskid heq => (by cases heq), ?_⟩
    cases client with
    | true =>
      apply h.dirs rfl
      simp only [Area.home, Store.usable, if_true, decide_eq_true_eq, not_and_or, not_not] at hx
      exact hx
    | false => exact h.tasks name (by simpa [Area.home, Store.usable] using hx)
  | persistent =>
    refine .inr ⟨fun taskid heq => (by cases heq), ?_⟩
    cases client with
    | true => exact absurd rfl hx
    | false => exact h.tasks name (by simpa [Area.home, Store.usable] using hx)

theorem step_read (htokio : tokio.Complete) (h : Represents s st) (area : Area) (name : Name) :
    readOf tokio s.adapter s.fs area name =
      if st.usable (area.home client) name then
        (st.cell (area.home client, name)).bind fromUtf8 else none := by
  split_ifs with hx
  · have hat : s.fs.fileAt (placeOf client s (area.home client, name)) =
        st.cell (area.home client, name) := h.fileAt hx
    obtain ⟨h₀, hres⟩ := h.resolve_home hx
    rw [h.readOf_eq (known_of_usable hx), htokio.read h₀ hres, hat]
  · rcases h.of_not_usable hx with ⟨taskid, rfl, hlookup⟩ | ⟨hknown, hd⟩
    · rw [readOf, FsAdapter.readTaskFile, hlookup]
    · obtain ⟨h₀, hres⟩ := h.resolve area hknown name
      rw [h.readOf_eq hknown, htokio.read h₀ hres, Fs.fileAt_dir hd]
      rfl

theorem step_write (htokio : tokio.Complete) (h : Represents s st) (area : Area) (mode : WriteMode)
    (name : Name) (content : Str) :
    ((Op.write area mode name content).apply tokio s).1 = (st.step (.write area mode name content)).1 ∧
      Represents ((Op.write area mode name content).apply tokio s).2
        (st.step (.write area mode name content)).2 := by
  rw [Op.apply, Store.step]
  dsimp only
  by_cases hx : st.usable (area.home client) name = true
  · obtain ⟨h₀, hres⟩ := h.resolve_home hx
    have hat : s.fs.fileAt (placeOf client s (area.home client, name)) =
      st.cell (area.home client, name) := h.fileAt hx
    have hnot : ¬ s.fs.IsDir (placeOf client s (area.home client, name)) := h.not_isDir hx
    obtain ⟨hok, hputs⟩ := htokio.write mode h₀ hres hnot content
    rw [hat] at hok hputs
    rw [h.writeOf_eq (known_of_usable hx), dif_pos hx]
    exact ⟨congrArg _ hok, h.puts (x := (area.home client, name)) hx hputs⟩
  · rw [dif_neg hx]
    rcases h.of_not_usable hx with ⟨taskid, rfl, hlookup⟩ | ⟨hknown, hd⟩
    · rw [writeOf_task, hlookup]
      exact ⟨rfl, h⟩
    · rw [h.writeOf_eq hknown, htokio.write_dir mode (h.resolve area hknown name).2 hd]
      exact ⟨rfl, h⟩

theorem step_remove (htokio : tokio.Complete) (h : Represents s st) (area : Area) (name : Name) :
    ((Op.remove area name).apply tokio s).1 = (st.step (.remove area name)).1 ∧
      Represents ((Op.remove area name).apply tokio s).2 (st.step (.remove area name)).2 := by
  rw [Op.apply, Store.step]
  dsimp only
  by_cases hx : st.usable (area.home client) name = true
  · obtain ⟨h₀, hres⟩ := h.resolve_home hx
    have hnode : s.fs.node (placeOf client s (area.home client, name)) =
      (st.cell (area.home client, name)).map .file := h.cells (area.home client, name) hx
    rw [h.removeOf_eq (known_of_usable hx), dif_pos hx, FsAdapter.removeIfThere,
      htokio.metadata h₀ hres]
    cases hcell : st.cell (area.home client, name) with
    | none =>
      have hsame := h.put_self (x := (area.home client, name)) hx
      rw [hcell] at hsame hnode
      rw [if_neg (by simp [hnode])]
      exact ⟨rfl, hsame⟩
    | some data =>
      rw [hcell] at hnode
      obtain ⟨hok, hputs⟩ := htokio.remove h₀ hres hnode
      rw [if_pos (by simp [hnode])]
      exact ⟨congrArg _ hok, h.puts (x := (area.home client, name)) hx hputs⟩
  · rw [dif_neg hx]
    rcases h.of_not_usable hx with ⟨taskid, rfl, hlookup⟩ | ⟨hknown, hd⟩
    · rw [removeOf, FsAdapter.removeTaskFile, hlookup]
      exact ⟨rfl, h⟩
    · obtain ⟨h₀, hres⟩ := h.resolve area hknown name
      have hthere : tokio.metadata s.fs (join (areaDir client s.adapter.root area) name) = true := by
        rw [htokio.metadata h₀ hres,
          show s.fs.node (placeOf client s (area, name)) = some .dir from hd]
        rfl
      rw [h.removeOf_eq hknown, FsAdapter.removeIfThere, if_pos hthere, htokio.remove_dir hres hd]
      exact ⟨rfl, h⟩

/-! ### Copies -/

/-- The data of a name, also of one that cannot stand for a file. -/
theorem fileAt_home (h : Represents s st) {area : Area} {name : Name}
    (harea : ∀ taskid, area = .task taskid → st.known taskid = true) :
    s.fs.fileAt (placeOf client s (area, name)) =
      if st.usable (area.home client) name then st.cell (area.home client, name) else none := by
  split_ifs with hx
  · rw [← placeOf_home]
    exact h.fileAt hx
  · rcases h.of_not_usable hx with ⟨taskid, rfl, hlookup⟩ | ⟨-, hd⟩
    · exact absurd (harea taskid rfl) hx
    · exact Fs.fileAt_dir hd

/-- The persistent files of a server have no names of tasks. -/
theorem cell_persistent (name : Name) :
    (if st.usable (Area.persistent.home client) name then st.cell (Area.persistent.home client, name)
      else none) = st.cell (Area.persistent.home client, name) := by
  cases client with
  | true => rfl
  | false =>
    split_ifs with hx
    · rfl
    · exact (st.apart rfl name (by simpa [Area.home, Store.usable] using hx)).symm

/-- **A copy** from one area into another one. -/
theorem step_copy (htokio : tokio.Complete) (h : Represents s st) (source target : Area)
    {name name' : Name} (hsource : ∀ taskid, source = .task taskid → st.known taskid = true)
    (htarget : ∀ taskid, target = .task taskid → st.known taskid = true)
    (hcell : s.fs.fileAt (placeOf client s (source, name)) = st.cell (source.home client, name))
    (hne : placeOf client s (source, name) ≠ placeOf client s (target, name')) :
    let r := tokio.copy s.fs (join (areaDir client s.adapter.root source) name)
      (join (areaDir client s.adapter.root target) name')
    let r' := st.copy (source.home client, name) (target.home client, name')
    Reply.copied r.1 = r'.1 ∧ Represents ⟨s.adapter, r.2⟩ r'.2 := by
  obtain ⟨h₀, hres⟩ := h.resolve source hsource name
  obtain ⟨h₀', hres'⟩ := h.resolve target htarget name'
  dsimp only
  rw [Store.copy]
  split_ifs with hy
  · cases hdata : st.cell (source.home client, name) with
    | none =>
      rw [htokio.copy_none fun p _ hp => ?_]
      · exact ⟨rfl, h⟩
      · rw [hres] at hp
        cases hp
        rw [hcell, hdata]
    | some data =>
      have hplace := @placeOf_home client s target name'
      have hnot := h.not_isDir (x := (target.home client, name')) hy
      rw [hplace] at hnot
      obtain ⟨hbytes, hputs⟩ := htokio.copy h₀ hres h₀' hres' hnot hne (hcell.trans hdata)
      rw [← hplace] at hputs
      exact ⟨congrArg _ hbytes, h.puts (x := (target.home client, name')) hy hputs⟩
  · rcases h.of_not_usable hy with ⟨taskid, rfl, hlookup⟩ | ⟨-, hd⟩
    · exact absurd (htarget taskid rfl) hy
    · rw [htokio.copy_dir hres' hd]
      exact ⟨rfl, h⟩

/-- **A call** returns what the store returns, and leaves a tree that holds the store it leaves. -/
theorem step (htokio : tokio.Complete) (h : Represents s st) (op : Op) :
    (op.apply tokio s).1 = (st.step op).1 ∧ Represents (op.apply tokio s).2 (st.step op).2 := by
  have hnone : ∀ taskid, Area.persistent = .task taskid → st.known taskid = true :=
    fun taskid heq => by cases heq
  cases op with
  | createTask taskid => exact h.createTask taskid
  | taskDone taskid => exact h.taskDone taskid
  | read area name => exact ⟨congrArg _ (step_read htokio h area name), h⟩
  | write area mode name content => exact step_write htokio h area mode name content
  | remove area name => exact step_remove htokio h area name
  | persistentToRuntime persistent taskid taskPath =>
    rw [Op.apply, FsAdapter.persistentToRuntime, h.lookup, h.persistent, Store.step]
    split_ifs with hknown
    · refine step_copy htokio h .persistent (.task taskid) hnone ?_ ?_ ?_
      · rintro _ ⟨⟩
        exact hknown
      · rw [h.fileAt_home hnone, cell_persistent]
      · exact placeOf_persistent_ne persistent taskPath
    · exact ⟨rfl, h⟩
  | runtimeToPersistent persistent taskid taskPath =>
    rw [Op.apply, FsAdapter.runtimeToPersistent, h.lookup, h.persistent, Store.step]
    split_ifs with hknown
    · refine step_copy htokio h (.task taskid) .persistent ?_ hnone ?_ ?_
      · rintro _ ⟨⟩
        exact hknown
      · exact h.fileAt (x := (.task taskid, taskPath)) hknown
      · exact (placeOf_persistent_ne persistent taskPath).symm
    · exact ⟨rfl, h⟩

end Represents

/-! ## New adapters -/

section New

variable {tokio : TokioFs} {fs fs' : Fs} {root : Str} {client : Bool} {a : FsAdapter}

/-- What `new` makes of a root that is there. -/
def freed (fs : Fs) (root : Str) : Bool × Fs :=
  if fs.pathExists root then fs.removeDirAll root else (true, fs)

end New

end Jxtd.Dadga
