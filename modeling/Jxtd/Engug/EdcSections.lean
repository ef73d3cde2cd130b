import Jxtd.Engug.EdcTyping

/-!
# The checks of EDC sections

Every kind of section is checked for the keys it needs; some of them are named by the values of
other keys. A key that is looked up and missing makes the check panic.

* `Once`, `AtMostOnce`, `OneOf`: how often a key stands in a section, and with which texts.
* `Bound`, `Buffers`, `DepGiven`, `Runtime`, `ContextLoose`, `Routine`, `Attribute`, `Meta`: what
  the checks accept; `BuffersMissing`, `RuntimeMissing`, `ContextMissing`: where they panic.
* **`decides_checkBuffers`**, **`decides_checkRuntime`**, `decides_checkContext`,
  `decides_checkRoutine`, `decides_checkAttribute`, `decides_metaVerdict`: every check.
-/

namespace Jxtd.Engug.Edc

open Lib

/-! ## Keys in a section -/

def Once (ps : List Property) (key : String) : Prop := (valuesOf ps key).length = 1

def AtMostOnce (ps : List Property) (key : String) : Prop := (valuesOf ps key).length ≤ 1

instance (ps : List Property) (key : String) : Decidable (Once ps key) :=
  inferInstanceAs (Decidable ((valuesOf ps key).length = 1))

instance (ps : List Property) (key : String) : Decidable (AtMostOnce ps key) :=
  inferInstanceAs (Decidable ((valuesOf ps key).length ≤ 1))

/-- The key stands in the section once, with one of the given texts. -/
def OneOf (ps : List Property) (key : String) (types : List String) : Prop :=
  ∃ v ∈ types, valuesOf ps key = [v]

/-- A key whose texts stay strings. -/
def Untyped (key : String) : Prop := key ∉ numberKeys ∧ key ∉ flagKeys

instance (key : String) : Decidable (Untyped key) := by
  unfold Untyped
  infer_instance

theorem irValue_of_untyped {key : String} (h : Untyped key) (value : String) :
    irValue key value = .seq value := by
  rw [irValue, if_neg h.1, if_neg h.2]

/-- Every typed key ends with one of the letters `s`, `y`, `t` and `r`. -/
theorem untyped_append (name : String) {suffix : String} {c : Char}
    (hlast : suffix.toList.getLast? = some c) (h : c ∉ ['s', 'y', 't', 'r']) :
    Untyped (name ++ suffix) := by
  have hne : suffix.toList ≠ [] := by
    rintro hnil
    rw [hnil] at hlast
    cases hlast
  have hwhole : (name ++ suffix).toList.getLast? = some c := by
    rw [String.toList_append, List.getLast?_append_of_ne_nil _ hne, hlast]
  have hkeys : ∀ key ∈ numberKeys ++ flagKeys,
      key.toList.getLast?.any (· ∈ ['s', 'y', 't', 'r']) = true := by
    decide
  have hnot : name ++ suffix ∉ numberKeys ++ flagKeys := by
    intro hmem
    have hin := hkeys _ hmem
    rw [hwhole, Option.any_some, decide_eq_true_eq] at hin
    exact h hin
  rw [List.mem_append, not_or] at hnot
  exact hnot

variable (name : String) (ps : List Property)

/-! ## Lookups -/

/-- What a lookup returns. -/
theorem expectEntry_typed {α : Type} (cast : IRValue → Option α) (key msg : String) :
    expectEntry cast (typed name ps) key msg =
      if valuesOf ps key = [] then .error (.panics msg)
      else .ok ((valuesOf ps key).map fun v => cast (irValue key v)) := by
  rw [expectEntry, getEntry, Section.getEntryBoxed_eq, values_typed]
  by_cases h : valuesOf ps key = []
  · rw [if_pos h, if_pos (by rw [h]; rfl)]
    rfl
  · rw [if_neg h, if_neg (by rwa [List.map_eq_nil_iff]), Option.map_some, List.map_map]
    rfl

/-- A lookup of which only the number of values is used. -/
theorem decides_single (s : Section) {α : Type} (cast : IRValue → Option α) (key msg : String) :
    Decides (expectEntry cast s key msg >>= fun vs => pure (vs.length == 1))
      ((s.values key).length = 1) (s.values key = []) := by
  rw [expectEntry, getEntry, Section.getEntryBoxed_eq]
  by_cases h : s.values key = []
  · rw [if_pos h]
    exact (decides_panics msg).congr (by simp [h]) (by simp [h])
  · rw [if_neg h]
    refine (decides_ok _).congr ?_ (iff_of_false not_false h)
    rw [beq_iff_eq, List.length_map]

theorem decides_once {α : Type} (cast : IRValue → Option α) (key msg : String) :
    Decides (expectEntry cast (typed name ps) key msg >>= fun vs => pure (vs.length == 1))
      (Once ps key) (valuesOf ps key = []) := by
  refine (decides_single (typed name ps) cast key msg).congr ?_ ?_
  · rw [values_typed, List.length_map, Once]
  · rw [values_typed, List.map_eq_nil_iff]

/-- A lookup of a single value, on which the check then depends. -/
theorem decides_lookup {β : Type} {cast : IRValue → Option β} {g : String → β} {key msg : String}
    (hcast : ∀ v, cast (irValue key v) = some (g v)) {k : List (Option β) → Except Fail Bool}
    (hmany : ∀ a b cs, k (a :: b :: cs) = .ok false) {P Q : β → Prop}
    (h : ∀ b, Decides (k [some b]) (P b) (Q b)) :
    Decides (expectEntry cast (typed name ps) key msg >>= k)
      (∃ v, valuesOf ps key = [v] ∧ P (g v))
      (valuesOf ps key = [] ∨ ∃ v, valuesOf ps key = [v] ∧ Q (g v)) := by
  rw [expectEntry_typed]
  cases hvs : valuesOf ps key with
  | nil => exact (decides_panics msg).congr (by simp) (by simp)
  | cons v vs =>
    rw [if_neg (List.cons_ne_nil v vs), ok_bind, List.map_cons, hcast]
    cases vs with
    | nil => exact (h (g v)).congr (by simp) (by simp)
    | cons w vs =>
      rw [List.map_cons, hmany]
      exact (decides_ok false).congr (by simp) (by simp)

theorem asString_irValue {key : String} (h : Untyped key) (v : String) :
    asString (irValue key v) = some (id v) := by
  rw [irValue_of_untyped h]
  rfl

/-- **A lookup of a single value of a list**, behind which comes another check. -/
theorem decides_oneOf {key msg : String} (hkey : Untyped key) (types : List String)
    {k : List (Option String) → Except Fail Bool} {x : Except Fail Bool}
    (hmany : ∀ a b cs, k (a :: b :: cs) = .ok false)
    (hsingle : ∀ v, k [some v] = if v ∉ types then .ok false else x) {A B : Prop}
    (h : Decides x A B) :
    Decides (expectEntry asString (typed name ps) key msg >>= k)
      (OneOf ps key types ∧ A) (valuesOf ps key = [] ∨ OneOf ps key types ∧ B) := by
  have hguard (v : String) : Decides (k [some v]) (v ∈ types ∧ A) (v ∈ types ∧ B) := by
    rw [hsingle]
    exact h.guard
  refine (decides_lookup name ps (asString_irValue hkey) hmany hguard).congr ?_
    (or_congr Iff.rfl ?_)
  · constructor
    · rintro ⟨v, hv, hin, ha⟩
      exact ⟨⟨v, hin, hv⟩, ha⟩
    · rintro ⟨⟨v, hin, hv⟩, ha⟩
      exact ⟨v, hv, hin, ha⟩
  · constructor
    · rintro ⟨v, hv, hin, hb⟩
      exact ⟨⟨v, hin, hv⟩, hb⟩
    · rintro ⟨⟨v, hin, hv⟩, hb⟩
      exact ⟨v, hv, hin, hb⟩

theorem asU32_irValue {key : String} (h : key ∈ numberKeys) (v : String) :
    asU32 (irValue key v) = some (number v).toUInt32 := by
  rw [irValue, if_pos h]
  rfl

/-! ## Buffers -/

/-- The type under `typekey` is missing, or the value that it needs. -/
def TypedMissing (typekey : String) (types : List String) (valuekey : String) : Prop :=
  valuesOf ps typekey = [] ∨ OneOf ps typekey types ∧ valuesOf ps valuekey = []

theorem decides_checkTyped {typekey typemsg : String} (hkey : Untyped typekey) (types : List String)
    (valuekey valuemsg : String) :
    Decides (checkTyped (typed name ps) typekey typemsg types valuekey valuemsg)
      (OneOf ps typekey types ∧ Once ps valuekey) (TypedMissing ps typekey types valuekey) :=
  decides_oneOf name ps hkey types (fun _ _ _ => rfl) (fun _ => rfl)
    (decides_once name ps asString valuekey valuemsg)

/-- Two lookups of which only the numbers of values are used. -/
theorem decides_twice (key₁ msg₁ key₂ msg₂ : String) :
    Decides (expectEntry asString (typed name ps) key₁ msg₁ >>= fun vs =>
        expectEntry asString (typed name ps) key₂ msg₂ >>= fun ws =>
          pure (vs.length == 1 && ws.length == 1))
      (Once ps key₁ ∧ Once ps key₂) (valuesOf ps key₁ = [] ∨ valuesOf ps key₂ = []) := by
  rw [expectEntry_typed, expectEntry_typed, Once, Once]
  by_cases h₁ : valuesOf ps key₁ = []
  · rw [if_pos h₁, error_bind]
    exact (decides_panics msg₁).congr (by simp [h₁]) (by simp [h₁])
  · rw [if_neg h₁, ok_bind]
    by_cases h₂ : valuesOf ps key₂ = []
    · rw [if_pos h₂, error_bind]
      exact (decides_panics msg₂).congr (by simp [h₂]) (by simp [h₂])
    · rw [if_neg h₂, ok_bind, pure_eq_ok]
      exact (decides_ok _).congr (by simp) (by simp [h₁, h₂])

/-- What the keys of a buffer that is bound by `bind` must be. -/
@[mk_iff] structure BoundBy (n bind : String) : Prop where
  known : bind ∈ bindvalues
  imm : bind = "imm" → OneOf ps (n ++ "immtype") immtypes ∧ Once ps (n ++ "immvalue")
  remote : bind = "remote" → OneOf ps (n ++ "remotetype") remotetypes ∧ Once ps (n ++ "remotevalue")
  eng : bind = "eng" → Once ps (n ++ "engid") ∧ Once ps (n ++ "engbuf")

def Bound (n : String) : Prop := ∃ bind, valuesOf ps (n ++ "bind") = [bind] ∧ BoundBy ps n bind

/-- A key of a buffer that is bound by `bind` is missing. -/
def BoundByMissing (n bind : String) : Prop :=
  bind = "imm" ∧ TypedMissing ps (n ++ "immtype") immtypes (n ++ "immvalue") ∨
    bind = "remote" ∧ TypedMissing ps (n ++ "remotetype") remotetypes (n ++ "remotevalue") ∨
    bind = "eng" ∧ (valuesOf ps (n ++ "engid") = [] ∨ valuesOf ps (n ++ "engbuf") = [])

def BindMissing (n : String) : Prop :=
  valuesOf ps (n ++ "bind") = [] ∨
    ∃ bind, valuesOf ps (n ++ "bind") = [bind] ∧ BoundByMissing ps n bind

theorem decides_checkBuffer (n : String) :
    Decides (checkBuffer (typed name ps) n) (Bound ps n) (BindMissing ps n) := by
  have hbind : Untyped (n ++ "bind") := untyped_append n rfl (by decide)
  have himm : Untyped (n ++ "immtype") := untyped_append n rfl (by decide)
  have hremote : Untyped (n ++ "remotetype") := untyped_append n rfl (by decide)
  refine Decides.congr (decides_lookup name ps (asString_irValue hbind) (fun _ _ _ => rfl)
    fun bind => (decides_ok false).ite ((decides_checkTyped name ps himm immtypes _ _).ite
      ((decides_checkTyped name ps hremote remotetypes _ _).ite
        ((decides_twice name ps _ _ _ _).ite (decides_ok true))))) ?_ ?_
  · refine exists_congr fun bind => and_congr_right fun _ => ?_
    rw [boundBy_iff]
    by_cases h₁ : bind = "imm"
    · subst h₁
      simp [bindvalues]
    by_cases h₂ : bind = "remote"
    · subst h₂
      simp [bindvalues]
    by_cases h₃ : bind = "eng"
    · subst h₃
      simp [bindvalues]
    · simp [h₁, h₂, h₃]
  · refine or_congr Iff.rfl (exists_congr fun bind => and_congr_right fun _ => ?_)
    rw [BoundByMissing]
    by_cases h₁ : bind = "imm"
    · subst h₁
      simp [bindvalues]
    by_cases h₂ : bind = "remote"
    · subst h₂
      simp [bindvalues]
    by_cases h₃ : bind = "eng"
    · subst h₃
      simp [bindvalues]
    · simp [h₁, h₂, h₃]

/-- The number under a key that stands in the section once. -/
def count (key : String) : ℕ := ((valuesOf ps key).head?.map number).getD 0

/-- The names of the buffers of a section. -/
def buffers : List String :=
  bufferNames (valuesOf ps "extra") (count ps "inputs") (count ps "outputs")

def IsBuffer (n : String) : Prop :=
  n ∈ valuesOf ps "extra" ∨ (∃ i < count ps "inputs", n = "input" ++ toString i) ∨
    ∃ i < count ps "outputs", n = "output" ++ toString i

theorem mem_buffers {n : String} : n ∈ buffers ps ↔ IsBuffer ps n := by
  simp [buffers, bufferNames, IsBuffer, eq_comm]

structure Buffers : Prop where
  inputs : Once ps "inputs"
  outputs : Once ps "outputs"
  named : ∀ key ∈ ["unspecific", "pilotage", "lane"], ∀ v ∈ valuesOf ps key, IsBuffer ps v
  bound : ∀ n, IsBuffer ps n → Bound ps n

structure BuffersMissing : Prop where
  inputs : Once ps "inputs"
  outputs : Once ps "outputs"
  named : ∀ key ∈ ["unspecific", "pilotage", "lane"], ∀ v ∈ valuesOf ps key, IsBuffer ps v
  bind : FirstFails (Bound ps) (BindMissing ps) (buffers ps)

theorem decides_checkNamed {key : String} (hkey : Untyped key) (names : List String) :
    Decides (checkNamed (typed name ps) (ps.map Property.key) names key)
      (∀ v ∈ valuesOf ps key, v ∈ names) False := by
  unfold checkNamed
  by_cases h : key ∈ ps.map Property.key
  · rw [if_pos h, expectEntry_typed, if_neg (mem_keys_iff.mp h), ok_bind, pure_eq_ok]
    have hcast : (fun v => asString (irValue key v)) = some := funext (asString_irValue hkey)
    rw [hcast]
    refine (decides_ok _).congr ?_ Iff.rfl
    simp
  · rw [if_neg h]
    rw [mem_keys_iff, not_not] at h
    exact (decides_ok true).congr (by simp [h]) Iff.rfl

variable {ps} in
theorem number_lt {key v : String} (h : ∀ p ∈ ps, p.WellTyped) (hkey : key ∈ numberKeys)
    (hv : valuesOf ps key = [v]) : (number v).toUInt32.toNat = number v := by
  have hmem : v ∈ valuesOf ps key := hv ▸ List.mem_singleton_self v
  obtain ⟨p, hp, rfl⟩ := List.mem_map.mp hmem
  rw [List.mem_filter, decide_eq_true_eq] at hp
  have hlt := ((h p hp.1).number (hp.2 ▸ hkey)).2
  exact Nat.mod_eq_of_lt hlt

variable {ps} in
theorem once_iff {key : String} : Once ps key ↔ ∃ v, valuesOf ps key = [v] := List.length_eq_one_iff

variable {ps} in
theorem once_ne_nil {key : String} (h : Once ps key) : valuesOf ps key ≠ [] :=
  List.ne_nil_of_length_eq_add_one h

variable {ps} in
theorem atMostOnce_iff {key : String} :
    AtMostOnce ps key ↔ (valuesOf ps key ≠ [] → Once ps key) := by
  unfold AtMostOnce Once
  rw [← List.length_pos_iff]
  omega

variable {ps} in
theorem once_mem {key : String} (h : Once ps key) : key ∈ ps.map Property.key := by
  rw [mem_keys_iff]
  exact once_ne_nil h

theorem decides_checkBuffers (h : ∀ p ∈ ps, p.WellTyped) :
    Decides (checkBuffers (typed name ps) (ps.map Property.key)) (Buffers ps)
      (BuffersMissing ps) := by
  have hextra : ((getEntry asString (typed name ps) "extra").getD []).filterMap id =
      valuesOf ps "extra" := by
    have hcast : asString ∘ irValue "extra" = some := funext (asString_irValue (by decide))
    rw [getEntry, Section.getEntryBoxed_eq, values_typed]
    split_ifs with hnil
    · rw [List.map_eq_nil_iff] at hnil
      rw [hnil]
      rfl
    · rw [Option.map_some, Option.getD_some, List.map_map, hcast]
      simp
  have huntyped : ∀ key ∈ ["unspecific", "pilotage", "lane"], Untyped key := by decide
  have hnames (inputs outputs : UInt32) :=
    (decides_checkAll ["unspecific", "pilotage", "lane"] fun key hkey =>
        decides_checkNamed name ps (huntyped key hkey)
          (bufferNames (valuesOf ps "extra") inputs.toNat outputs.toNat)).and
      (decides_checkAll (bufferNames (valuesOf ps "extra") inputs.toNat outputs.toNat)
        fun n _ => decides_checkBuffer name ps n)
  have hbuffers {v w : String} (hv : valuesOf ps "inputs" = [v])
      (hw : valuesOf ps "outputs" = [w]) :
      bufferNames (valuesOf ps "extra") (number v).toUInt32.toNat (number w).toUInt32.toNat =
        buffers ps := by
    rw [number_lt h (by decide) hv, number_lt h (by decide) hw, buffers, count, count, hv, hw]
    rfl
  have hkeys (hinputs : Once ps "inputs") (houtputs : Once ps "outputs") :
      ¬("outputs" ∉ ps.map Property.key ∨ "inputs" ∉ ps.map Property.key) := by
    rw [not_or, not_not, not_not]
    exact ⟨once_mem houtputs, once_mem hinputs⟩
  have hin : ∀ v, asU32 (irValue "inputs" v) = some (number v).toUInt32 :=
    asU32_irValue (by decide)
  have hout : ∀ v, asU32 (irValue "outputs" v) = some (number v).toUInt32 :=
    asU32_irValue (by decide)
  unfold checkBuffers
  simp only [hextra]
  refine Decides.congr ((decides_ok false).ite (decides_lookup name ps hin (fun _ _ _ => rfl)
    fun inputs => decides_lookup name ps hout (fun _ _ _ => rfl) fun outputs =>
      hnames inputs outputs)) ?_ ?_
  · constructor
    · rintro (⟨-, hfalse⟩ | ⟨-, v, hv, w, hw, hnamed, hbound⟩)
      · exact absurd hfalse Bool.false_ne_true
      · rw [hbuffers hv hw] at hnamed hbound
        simp only [mem_buffers] at hnamed hbound
        exact ⟨once_iff.mpr ⟨v, hv⟩, once_iff.mpr ⟨w, hw⟩, hnamed, hbound⟩
    · rintro ⟨hinputs, houtputs, hnamed, hbound⟩
      obtain ⟨v, hv⟩ := once_iff.mp hinputs
      obtain ⟨w, hw⟩ := once_iff.mp houtputs
      refine .inr ⟨hkeys hinputs houtputs, v, hv, w, hw, ?_⟩
      rw [hbuffers hv hw]
      simp only [mem_buffers]
      exact ⟨hnamed, hbound⟩
  · constructor
    · rintro (⟨-, hfalse⟩ | ⟨hboth, hmissing⟩)
      · exact hfalse.elim
      · rw [not_or, not_not, not_not] at hboth
        rcases hmissing with hnil | ⟨v, hv, hnil | ⟨w, hw, hfirst | ⟨hnamed, hbind⟩⟩⟩
        · exact absurd hnil (mem_keys_iff.mp hboth.2)
        · exact absurd hnil (mem_keys_iff.mp hboth.1)
        · obtain ⟨_, _, _, -, -, hfalse⟩ := firstFails_iff.mp hfirst
          exact hfalse.elim
        · rw [hbuffers hv hw] at hnamed hbind
          simp only [mem_buffers] at hnamed
          exact ⟨once_iff.mpr ⟨v, hv⟩, once_iff.mpr ⟨w, hw⟩, hnamed, hbind⟩
    · rintro ⟨hinputs, houtputs, hnamed, hbind⟩
      obtain ⟨v, hv⟩ := once_iff.mp hinputs
      obtain ⟨w, hw⟩ := once_iff.mp houtputs
      refine .inr ⟨hkeys hinputs houtputs, .inr ⟨v, hv, .inr ⟨w, hw, .inr ?_⟩⟩⟩
      rw [hbuffers hv hw]
      simp only [mem_buffers]
      exact ⟨hnamed, hbind⟩

/-! ## Dependencies -/

structure DepGiven (d : String) : Prop where
  type : OneOf ps (d ++ "type") ["file", "url", "id"]
  path : Once ps (d ++ "path")
  relative : Once ps (d ++ "relative")

def DepMissing (d : String) : Prop :=
  valuesOf ps (d ++ "type") = [] ∨ OneOf ps (d ++ "type") ["file", "url", "id"] ∧
    (valuesOf ps (d ++ "path") = [] ∨ valuesOf ps (d ++ "relative") = [])

structure Runtime : Prop where
  deps : valuesOf ps "deps" ≠ []
  given : ∀ d ∈ valuesOf ps "deps", DepGiven ps d

def RuntimeMissing : Prop :=
  valuesOf ps "deps" = [] ∨ FirstFails (DepGiven ps) (DepMissing ps) (valuesOf ps "deps")

theorem decides_checkDep (d : String) :
    Decides (checkDep (typed name ps) d) (DepGiven ps d) (DepMissing ps d) := by
  have htype : Untyped (d ++ "type") := untyped_append d rfl (by decide)
  refine (decides_oneOf name ps htype ["file", "url", "id"] (fun _ _ _ => rfl) (fun _ => rfl)
    (decides_twice name ps _ _ _ _)).congr ?_ Iff.rfl
  constructor
  · rintro ⟨htype, hpath, hrelative⟩
    exact ⟨htype, hpath, hrelative⟩
  · rintro ⟨htype, hpath, hrelative⟩
    exact ⟨htype, hpath, hrelative⟩

theorem decides_checkRuntime :
    Decides (checkRuntime (typed name ps)) (Runtime ps) (RuntimeMissing ps) := by
  unfold checkRuntime
  rw [expectEntry_typed]
  by_cases hnil : valuesOf ps "deps" = []
  · rw [if_pos hnil, error_bind]
    exact (decides_panics _).congr (iff_of_false not_false fun h => h.deps hnil)
      (iff_of_true trivial (.inl hnil))
  · have hcast : (fun v => asString (irValue "deps" v)) = some :=
      funext (asString_irValue (by decide))
    have hvalues : ((valuesOf ps "deps").map some).filterMap id = valuesOf ps "deps" := by simp
    rw [if_neg hnil, ok_bind, hcast, hvalues]
    refine (decides_checkAll _ fun d _ => decides_checkDep name ps d).congr ?_ ?_
    · exact ⟨fun h => ⟨hnil, h⟩, fun h => h.given⟩
    · exact ⟨.inr, fun h => h.resolve_left hnil⟩

/-! ## Contexts, routines and attributes -/

/-- What is accepted of a context: `persistent` is counted where `persistentpar` stands. -/
structure ContextLoose : Prop where
  parent : Once ps "parent"
  lazypar : AtMostOnce ps "lazypar"
  persistent : valuesOf ps "persistentpar" ≠ [] → Once ps "persistent"

def ContextMissing : Prop :=
  valuesOf ps "parent" = [] ∨ Once ps "parent" ∧ AtMostOnce ps "lazypar" ∧
    valuesOf ps "persistentpar" ≠ [] ∧ valuesOf ps "persistent" = []

structure Routine : Prop where
  single : ps.length = 1
  proc : valuesOf ps "proc" ≠ []

structure Attribute : Prop where
  keys : ∀ p ∈ ps, p.key = "lazy" ∨ p.key = "persistent"
  isLazy : AtMostOnce ps "lazy"
  persistent : AtMostOnce ps "persistent"

theorem decides_checkContext :
    Decides (checkContext (typed name ps) (ps.map Property.key)) (ContextLoose ps)
      (ContextMissing ps) := by
  have honce (key lookup msg : String) : Decides
      (if key ∈ ps.map Property.key then
        expectEntry asU8 (typed name ps) lookup msg >>= fun vs => pure (vs.length == 1)
      else .ok true) (valuesOf ps key ≠ [] → Once ps lookup)
      (valuesOf ps key ≠ [] ∧ valuesOf ps lookup = []) := by
    refine Decides.congr ((decides_once name ps asU8 lookup msg).ite (decides_ok true)) ?_ ?_
    · rw [mem_keys_iff]
      by_cases h : valuesOf ps key = [] <;> simp [h]
    · rw [mem_keys_iff]
      simp
  unfold checkContext
  rw [expectEntry_typed]
  by_cases hnil : valuesOf ps "parent" = []
  · rw [if_pos hnil, error_bind]
    exact (decides_panics _).congr (iff_of_false not_false fun h => once_ne_nil h.parent hnil)
      (iff_of_true trivial (.inl hnil))
  rw [if_neg hnil, ok_bind, List.length_map]
  by_cases hparent : (valuesOf ps "parent").length = 1
  · rw [if_neg (not_not.mpr hparent)]
    refine Decides.congr ((honce "lazypar" "lazypar" _).and
      (honce "persistentpar" "persistent" _)) ?_ ?_
    · rw [← atMostOnce_iff]
      exact ⟨fun h => ⟨hparent, h.1, h.2⟩, fun h => ⟨h.lazypar, h.persistent⟩⟩
    · rw [← atMostOnce_iff, ContextMissing]
      constructor
      · rintro (⟨hne, hnil⟩ | h)
        · exact absurd hnil hne
        · exact .inr ⟨hparent, h⟩
      · rintro (h | h)
        · exact absurd h hnil
        · exact .inr h.2
  · rw [if_pos hparent]
    refine (decides_ok false).congr ?_ ?_
    · exact iff_of_false Bool.false_ne_true fun h => hparent h.parent
    · refine iff_of_false not_false ?_
      rintro (h | h)
      · exact hnil h
      · exact hparent h.1

theorem decides_checkRoutine :
    Decides (checkRoutine (typed name ps) (ps.map Property.key)) (Routine ps)
      (ps.length = 1 ∧ valuesOf ps "proc" = []) := by
  unfold checkRoutine
  rw [List.length_map]
  refine (decides_once name ps asString "proc" _).guard.congr ?_ Iff.rfl
  constructor
  · exact fun ⟨hlen, honce⟩ => ⟨hlen, once_ne_nil honce⟩
  · rintro ⟨hlen, hproc⟩
    refine ⟨hlen, ?_⟩
    have hle : (valuesOf ps "proc").length ≤ ps.length := by
      rw [valuesOf, List.length_map]
      exact List.length_filter_le _ ps
    have hpos := List.length_pos_iff.mpr hproc
    unfold Once
    omega

theorem decides_checkAttribute :
    Decides (checkAttribute (typed name ps) (ps.map Property.key)) (Attribute ps) False := by
  unfold checkAttribute
  refine Decides.congr (decides_checkAll _ fun key _ =>
    (decides_once name ps asString key _).ite (decides_ok false)) ?_ ?_
  · constructor
    · intro h
      have hkey (key : String) (hmem : key ∈ ps.map Property.key) :
          (key = "lazy" ∨ key = "persistent") ∧ Once ps key :=
        (h key hmem).resolve_right fun h => Bool.false_ne_true h.2
      refine ⟨fun p hp => (hkey p.key (List.mem_map_of_mem hp)).1, ?_, ?_⟩
      · exact atMostOnce_iff.mpr fun hne => (hkey _ (mem_keys_iff.mpr hne)).2
      · exact atMostOnce_iff.mpr fun hne => (hkey _ (mem_keys_iff.mpr hne)).2
    · rintro ⟨hkeys, hlazy, hpersistent⟩ key hmem
      have hne := mem_keys_iff.mp hmem
      obtain ⟨p, hp, rfl⟩ := List.mem_map.mp hmem
      refine .inl ⟨hkeys p hp, ?_⟩
      rcases hkeys p hp with h | h
      · rw [h] at hne ⊢
        exact atMostOnce_iff.mp hlazy hne
      · rw [h] at hne ⊢
        exact atMostOnce_iff.mp hpersistent hne
  · refine iff_of_false (fun h => ?_) not_false
    obtain ⟨before, key, after, hsplit, -, ⟨-, hnil⟩ | ⟨-, hfalse⟩⟩ := firstFails_iff.mp h
    · have hmem : key ∈ ps.map Property.key := by simp [hsplit]
      exact mem_keys_iff.mp hmem hnil
    · exact hfalse

/-! ## Metadata -/

structure Meta : Prop where
  mid : Once ps "mid"
  name : AtMostOnce ps "name"
  description : AtMostOnce ps "description"

/-- The section with the values that the check of metadata adds. -/
def filled (s : Section) (keys : List String) : Section :=
  addDefault (addDefault s keys "name") keys "description"

/-- What the check of metadata returns. -/
def metaVerdict (s : Section) (keys : List String) : Except Fail Bool :=
  if "mid" ∉ keys then .ok false
  else checkAll (fun key =>
    expectEntry asString (filled s keys) key "missing necessary property in section meta" >>=
      fun values => pure (values.length == 1)) ["name", "description", "mid"]

theorem checkMeta_eq (s : Section) (keys : List String) :
    checkMeta s keys = (metaVerdict s keys).map fun flag => (flag, filled s keys) := by
  unfold checkMeta metaVerdict
  dsimp only
  by_cases h : "mid" ∈ keys
  · rw [if_neg (not_not.mpr h), if_neg (not_not.mpr h)]
    exact bind_ok _ _
  · rw [if_pos h, if_pos h]
    rfl

theorem values_addDefault (s : Section) (keys : List String) (key k : String) :
    (addDefault s keys key).values k =
      s.values k ++ if key ∉ keys ∧ k = key then [.seq ""] else [] := by
  unfold addDefault
  by_cases h : key ∈ keys
  · rw [if_pos h, if_neg fun h' => h'.1 h, List.append_nil]
  · rw [if_neg h, Section.values_addEntry]
    simp [h]

/-- The values of a section of metadata. -/
def metaValues (key : String) : List IRValue :=
  if (key = "name" ∨ key = "description") ∧ valuesOf ps key = [] then [.seq ""]
  else (valuesOf ps key).map (irValue key)

theorem values_filled (key : String) :
    (filled (typed name ps) (ps.map Property.key)).values key = metaValues ps key := by
  rw [filled, values_addDefault, values_addDefault, values_typed, metaValues]
  simp only [mem_keys_iff]
  by_cases hname : key = "name"
  · subst hname
    by_cases hnil : valuesOf ps "name" = [] <;> simp [hnil]
  by_cases hdescription : key = "description"
  · subst hdescription
    by_cases hnil : valuesOf ps "description" = [] <;> simp [hnil]
  · simp [hname, hdescription]

variable {ps} in
theorem length_metaValues {key : String} (h : key = "name" ∨ key = "description") :
    (metaValues ps key).length = 1 ↔ AtMostOnce ps key := by
  unfold metaValues AtMostOnce
  by_cases hnil : valuesOf ps key = []
  · rw [if_pos ⟨h, hnil⟩, hnil]
    simp
  · have hpos := List.length_pos_iff.mpr hnil
    rw [if_neg fun h' => hnil h'.2, List.length_map]
    omega

variable {ps} in
theorem metaValues_ne_nil {key : String} (h : key = "name" ∨ key = "description") :
    metaValues ps key ≠ [] := by
  unfold metaValues
  by_cases hnil : valuesOf ps key = []
  · rw [if_pos ⟨h, hnil⟩]
    exact List.cons_ne_nil _ _
  · rwa [if_neg fun h' => hnil h'.2, Ne, List.map_eq_nil_iff]

theorem metaValues_mid : metaValues ps "mid" = (valuesOf ps "mid").map (irValue "mid") :=
  if_neg fun h => absurd h.1 (by decide)

theorem decides_metaVerdict :
    Decides (metaVerdict (typed name ps) (ps.map Property.key)) (Meta ps) False := by
  have hall : (∀ key ∈ ["name", "description", "mid"], (metaValues ps key).length = 1) ↔
      Meta ps := by
    simp only [List.forall_mem_cons, List.not_mem_nil, false_implies, implies_true, and_true,
      length_metaValues (.inl rfl), length_metaValues (.inr rfl), metaValues_mid, List.length_map]
    exact ⟨fun ⟨hname, hdescription, hmid⟩ => ⟨hmid, hname, hdescription⟩,
      fun h => ⟨h.name, h.description, h.mid⟩⟩
  unfold metaVerdict
  have hchecks := decides_checkAll ["name", "description", "mid"] fun key _ =>
    decides_single (filled (typed name ps) (ps.map Property.key)) asString key
      "missing necessary property in section meta"
  refine hchecks.guard.congr ?_ ?_
  · simp only [values_filled, hall]
    exact ⟨fun h => h.2, fun h => ⟨once_mem h.mid, h⟩⟩
  · refine iff_of_false ?_ not_false
    rintro ⟨hmid, h⟩
    simp only [values_filled, FirstFails, metaValues_mid, List.map_eq_nil_iff] at h
    rcases h with h | ⟨-, h | ⟨-, h | ⟨-, h⟩⟩⟩
    · exact metaValues_ne_nil (.inl rfl) h
    · exact metaValues_ne_nil (.inr rfl) h
    · exact mem_keys_iff.mp hmid h
    · exact h

end Jxtd.Engug.Edc
