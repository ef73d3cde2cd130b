import Jxtd.Engug.EdcSections

/-!
# Which EDC sections are accepted

A section is returned when its properties are well typed and the check of its kind accepts them.

* **`decides_verdict`**: the checks of all kinds of sections.
* **`sectionOf_isOk_iff`**, **`panics_sectionOf`**, `sectionOf_eq_ok`: a whole section, from its
  properties.
* `Rest`, `Returns`: a section in a text, and what can follow it.
* **`buffers_runtime_returned`**: what is accepted of buffers and runtimes.
* **`returned_iff`**: what is accepted of the other sections, and of which contexts it is not.
-/

namespace Jxtd.Engug.Edc

open Lib

variable (name : String) (ps : List Property)

/-! ## All kinds of sections -/

/-- What the check of a section returns. -/
def verdict (s : Section) (keys : List String) : Except Fail Bool :=
  match s.name with
  | "meta" => metaVerdict s keys
  | "buffers" => checkBuffers s keys
  | "runtime" => checkRuntime s
  | "context" => checkContext s keys
  | "routine" => checkRoutine s keys
  | "attribute" => checkAttribute s keys
  | _ => .ok false

/-- The section that the check returns. -/
def checked (s : Section) (keys : List String) : Section :=
  if s.name = "meta" then filled s keys else s

def Accepts (name : String) (ps : List Property) : Prop :=
  match name with
  | "meta" => Meta ps
  | "buffers" => Buffers ps
  | "runtime" => Runtime ps
  | "context" => ContextLoose ps
  | "routine" => Routine ps
  | "attribute" => Attribute ps
  | _ => False

/-- A key that the check looks up is missing. -/
def Missing (name : String) (ps : List Property) : Prop :=
  match name with
  | "buffers" => BuffersMissing ps
  | "runtime" => RuntimeMissing ps
  | "context" => ContextMissing ps
  | "routine" => ps.length = 1 ∧ valuesOf ps "proc" = []
  | _ => False

def kinds : List String := ["meta", "buffers", "runtime", "context", "routine", "attribute"]

section Unknown

variable {name} (h : name ∉ kinds)

include h

theorem accepts_of_notMem : ¬Accepts name ps := by
  unfold Accepts
  split
  case h_7 => exact not_false
  all_goals exact absurd (by decide) h

theorem missing_of_notMem : ¬Missing name ps := by
  unfold Missing
  split
  case h_5 => exact not_false
  all_goals exact absurd (by decide) h

theorem verdict_of_notMem {s : Section} (hs : s.name = name) (keys : List String) :
    verdict s keys = .ok false := by
  unfold verdict
  split
  case h_7 => rfl
  all_goals
    rename_i hname
    exact absurd (by rw [← hs, hname]; decide) h

theorem check_of_notMem {s : Section} (hs : s.name = name) (keys : List String) :
    check s keys = .ok (false, s) := by
  unfold check
  split
  case h_7 => rfl
  all_goals
    rename_i hname
    exact absurd (by rw [← hs, hname]; decide) h

end Unknown

theorem mem_kinds {n : String} (h : n ∈ kinds) :
    n = "meta" ∨ n = "buffers" ∨ n = "runtime" ∨ n = "context" ∨ n = "routine" ∨
      n = "attribute" := by
  simpa [kinds] using h

theorem check_eq (s : Section) (keys : List String) :
    check s keys = (verdict s keys).map fun flag => (flag, checked s keys) := by
  by_cases h : s.name ∈ kinds
  · obtain ⟨n, entries, full⟩ := s
    rcases mem_kinds h with h | h | h | h | h | h
    · cases h
      exact checkMeta_eq _ keys
    all_goals
      cases h
      rfl
  · have hmeta : s.name ≠ "meta" := by
      intro hname
      exact h (by rw [hname]; decide)
    rw [check_of_notMem h rfl, verdict_of_notMem h rfl, checked, if_neg hmeta]
    rfl

/-- **The checks of all kinds of sections.** -/
theorem decides_verdict (h : ∀ p ∈ ps, p.WellTyped) :
    Decides (verdict (typed name ps) (ps.map Property.key)) (Accepts name ps)
      (Missing name ps) := by
  have hname (n : String) : (typed n ps).name = n := name_typed _ ps
  by_cases hkind : name ∈ kinds
  · unfold verdict
    rw [hname]
    rcases mem_kinds hkind with rfl | rfl | rfl | rfl | rfl | rfl
    · exact decides_metaVerdict _ ps
    · exact decides_checkBuffers _ ps h
    · exact decides_checkRuntime _ ps
    · exact decides_checkContext _ ps
    · exact decides_checkRoutine _ ps
    · exact decides_checkAttribute _ ps
  · rw [verdict_of_notMem hkind (hname name)]
    exact (decides_ok false).congr (iff_of_false Bool.false_ne_true (accepts_of_notMem ps hkind))
      (iff_of_false not_false (missing_of_notMem ps hkind))

/-! ## Whole sections -/

/-- The values that a section is returned with. -/
def sectionValues (name : String) (ps : List Property) (key : String) : List IRValue :=
  if name = "meta" then metaValues ps key else (valuesOf ps key).map (irValue key)

theorem values_checked (key : String) :
    (checked (typed name ps) (ps.map Property.key)).values key = sectionValues name ps key := by
  rw [checked, show (typed name ps).name = name from name_typed _ ps, sectionValues]
  split_ifs
  · exact values_filled name ps key
  · exact values_typed name ps key

theorem name_addDefault (s : Section) (keys : List String) (key : String) :
    (addDefault s keys key).name = s.name := by
  unfold addDefault
  split_ifs <;> rfl

theorem name_checked : (checked (typed name ps) (ps.map Property.key)).name = name := by
  unfold checked
  split_ifs
  · rw [filled, name_addDefault, name_addDefault]
    exact name_typed _ ps
  · exact name_typed _ ps

/-- What is made of properties that are well typed. -/
theorem sectionOf_of_wellTyped (h : ∀ p ∈ ps, p.WellTyped) :
    sectionOf name (ps.map Property.pair) =
      verdict (typed name ps) (ps.map Property.key) >>= fun flag =>
        if flag then .ok (checked (typed name ps) (ps.map Property.key)) else .error .error := by
  rw [sectionOf, typeProperties_of_wellTyped h, ok_bind, List.nil_append]
  dsimp only
  rw [check_eq]
  unfold typed
  cases verdict _ _ with
  | error e => rfl
  | ok flag => rfl

theorem wellTyped_of_sectionOf {t : Section} (h : sectionOf name (ps.map Property.pair) = .ok t) :
    ∀ p ∈ ps, p.WellTyped := by
  obtain ⟨state, hstate, -⟩ := bind_eq_ok.mp h
  exact typeProperties_eq_ok hstate

/-- **The section that is returned** has the name and the values that are written. -/
theorem sectionOf_eq_ok {t : Section} (h : sectionOf name (ps.map Property.pair) = .ok t) :
    t.name = name ∧ ∀ key, t.values key = sectionValues name ps key := by
  rw [sectionOf_of_wellTyped name ps (wellTyped_of_sectionOf name ps h)] at h
  obtain ⟨flag, -, h⟩ := bind_eq_ok.mp h
  split_ifs at h
  cases h
  exact ⟨name_checked name ps, values_checked name ps⟩

/-- **The sections that are accepted.** -/
theorem sectionOf_isOk_iff :
    (∃ t, sectionOf name (ps.map Property.pair) = .ok t) ↔
      (∀ p ∈ ps, p.WellTyped) ∧ Accepts name ps := by
  constructor
  · rintro ⟨t, h⟩
    have htyped := wellTyped_of_sectionOf name ps h
    rw [sectionOf_of_wellTyped name ps htyped] at h
    obtain ⟨flag, hflag, h⟩ := bind_eq_ok.mp h
    split_ifs at h with htrue
    subst htrue
    exact ⟨htyped, (decides_verdict name ps htyped).accepts_iff.mp hflag⟩
  · rintro ⟨htyped, haccepts⟩
    rw [sectionOf_of_wellTyped name ps htyped,
      (decides_verdict name ps htyped).accepts_iff.mpr haccepts]
    exact ⟨_, rfl⟩

/-- **The sections that panic**: a number does not fit, or a key that is needed is missing. -/
theorem panics_sectionOf :
    Panics (sectionOf name (ps.map Property.pair)) ↔
      FirstFails Property.WellTyped Property.Overflows ps ∨
        (∀ p ∈ ps, p.WellTyped) ∧ Missing name ps := by
  by_cases htyped : ∀ p ∈ ps, p.WellTyped
  · have hdecides := decides_verdict name ps htyped
    have hfirst : ¬FirstFails Property.WellTyped Property.Overflows ps := by
      intro h
      obtain ⟨before, p, after, rfl, -, hp⟩ := firstFails_iff.mp h
      exact (htyped p (by simp)).not_overflows hp
    rw [sectionOf_of_wellTyped name ps htyped, panics_bind, hdecides.panics_iff]
    constructor
    · rintro (h | ⟨flag, -, h⟩)
      · exact .inr ⟨htyped, h⟩
      · split_ifs at h
        · exact absurd h (not_panics_ok _)
        · exact absurd h not_panics_error
    · rintro (h | ⟨-, h⟩)
      · exact absurd h hfirst
      · exact .inl h
  · rw [sectionOf, panics_bind, panics_typeProperties]
    constructor
    · rintro (h | ⟨state, hstate, -⟩)
      · exact .inl h
      · exact absurd (typeProperties_eq_ok hstate) htyped
    · rintro (h | ⟨h, -⟩)
      · exact .inl h
      · exact absurd h htyped

theorem noFailure_sectionOf : NoFailure (sectionOf name (ps.map Property.pair)) := by
  by_cases htyped : ∀ p ∈ ps, p.WellTyped
  · rw [sectionOf_of_wellTyped name ps htyped]
    refine NoFailure.bind (fun h => ?_) fun flag => ?_
    · obtain ⟨msg, hmsg⟩ := (decides_verdict name ps htyped).returns _ h
      rw [h] at hmsg
      cases hmsg
    · cases flag with
      | false => exact noFailure_error
      | true => exact noFailure_ok _
  · unfold sectionOf
    intro h
    cases hstate : typeProperties (.new name, []) (ps.map Property.pair) with
    | error e =>
      rw [hstate] at h
      cases h
      exact noFailure_typeProperties ps _ _ hstate
    | ok state => exact htyped (typeProperties_eq_ok hstate)

/-! ## Sections in a text -/

/-- What can follow the last property of a section. -/
structure Rest where
  text : List Char
  solid : Solid text
  stops : Stops text

/-- The section is read, and nothing behind it. -/
def Returns (s : SectionText) (rest : Rest) (t : Section) : Prop :=
  parseSection (utf8 (s.text ++ rest.text)) = .ok (utf8 rest.text, t)

theorem returns_iff {s : SectionText} {rest : Rest} {t : Section} :
    Returns s rest t ↔ sectionOf s.name s.pairs = .ok t := by
  rw [Returns, parseSection_text s rest.solid rest.stops, map_eq_ok]
  constructor
  · rintro ⟨u, hu, heq⟩
    cases heq
    exact hu
  · exact fun h => ⟨t, h, rfl⟩

theorem exists_returns_iff {s : SectionText} {rest : Rest} :
    (∃ t, Returns s rest t) ↔ (∀ p ∈ s.properties, p.WellTyped) ∧ Accepts s.name s.properties := by
  rw [← sectionOf_isOk_iff]
  exact exists_congr fun t => returns_iff

def buffersText (ps : List Property) : SectionText where
  name := "buffers"
  properties := ps
  name_solid := by decide
  name_clean := by decide
  name_ne := by decide

def runtimeText (ps : List Property) : SectionText where
  name := "runtime"
  properties := ps
  name_solid := by decide
  name_clean := by decide
  name_ne := by decide

/-- **Buffers and runtimes.** A section of buffers is returned exactly if the properties are well
typed, `inputs` and `outputs` stand in it once, `unspecific`, `pilotage` and `lane` name buffers, and
every buffer is bound; a runtime exactly if they are well typed and every dependency is given. -/
theorem buffers_runtime_returned (ps : List Property) (rest : Rest) :
    ((∃ t, Returns (buffersText ps) rest t) ↔ (∀ p ∈ ps, p.WellTyped) ∧ Buffers ps) ∧
      ((∃ t, Returns (runtimeText ps) rest t) ↔ (∀ p ∈ ps, p.WellTyped) ∧ Runtime ps) :=
  ⟨exists_returns_iff, exists_returns_iff⟩

/-! ## The other sections -/

structure Context (ps : List Property) : Prop where
  parent : Once ps "parent"
  lazypar : AtMostOnce ps "lazypar"
  persistentpar : AtMostOnce ps "persistentpar"

/-- What the sections other than buffers and runtimes are to hold. -/
def Admissible (name : String) (ps : List Property) : Prop :=
  match name with
  | "meta" => Meta ps
  | "context" => Context ps
  | "routine" => ∃ p, ps = [p] ∧ p.key = "proc"
  | "attribute" => Attribute ps
  | _ => False

/-- A context with a `persistentpar`, whose check then counts `persistent`. -/
structure Miscounts (s : SectionText) : Prop where
  context : s.name = "context"
  parent : Once s.properties "parent"
  lazypar : AtMostOnce s.properties "lazypar"
  occurs : valuesOf s.properties "persistentpar" ≠ []
  differs : ¬(Once s.properties "persistentpar" ↔ Once s.properties "persistent")

variable {ps} in
theorem routine_iff : Routine ps ↔ ∃ p, ps = [p] ∧ p.key = "proc" := by
  constructor
  · rintro ⟨hlen, hproc⟩
    obtain ⟨p, rfl⟩ := List.length_eq_one_iff.mp hlen
    refine ⟨p, rfl, ?_⟩
    by_contra hkey
    exact hproc (by rw [valuesOf_cons, if_neg hkey]; rfl)
  · rintro ⟨p, rfl, hkey⟩
    refine ⟨rfl, ?_⟩
    rw [valuesOf_cons, if_pos hkey]
    exact List.cons_ne_nil _ _

theorem contextLoose_iff_context {s : SectionText} (hname : s.name = "context") :
    (ContextLoose s.properties ↔ Context s.properties) ↔ ¬Miscounts s := by
  constructor
  · intro h hbad
    refine hbad.differs ⟨fun hpar => ?_, fun hper => ?_⟩
    · exact (h.mpr ⟨hbad.parent, hbad.lazypar, Nat.le_of_eq hpar⟩).persistent hbad.occurs
    · exact atMostOnce_iff.mp (h.mp ⟨hbad.parent, hbad.lazypar, fun _ => hper⟩).persistentpar
        hbad.occurs
  · intro h
    -- where `persistentpar` stands, counting either key gives the same
    have hsame (hparent : Once s.properties "parent") (hlazypar : AtMostOnce s.properties "lazypar")
        (hoccurs : valuesOf s.properties "persistentpar" ≠ []) :
        Once s.properties "persistentpar" ↔ Once s.properties "persistent" :=
      not_not.mp fun hdiffers => h ⟨hname, hparent, hlazypar, hoccurs, hdiffers⟩
    constructor
    · rintro ⟨hparent, hlazypar, hpersistent⟩
      refine ⟨hparent, hlazypar, atMostOnce_iff.mpr fun hoccurs => ?_⟩
      exact (hsame hparent hlazypar hoccurs).mpr (hpersistent hoccurs)
    · rintro ⟨hparent, hlazypar, hpersistentpar⟩
      refine ⟨hparent, hlazypar, fun hoccurs => ?_⟩
      exact (hsame hparent hlazypar hoccurs).mp (atMostOnce_iff.mp hpersistentpar hoccurs)

theorem admissible_of_notMem {n : String} (h : n ∉ kinds) : ¬Admissible n ps := by
  unfold Admissible
  split
  case h_5 => exact not_false
  all_goals exact absurd (by decide) h

theorem accepts_iff_admissible {s : SectionText} (hname : s.name ≠ "buffers" ∧ s.name ≠ "runtime") :
    (Accepts s.name s.properties ↔ Admissible s.name s.properties) ↔ ¬Miscounts s := by
  by_cases hkind : s.name ∈ kinds
  · rcases mem_kinds hkind with h | h | h | h | h | h
    · rw [h]
      exact iff_of_true Iff.rfl fun hbad => absurd (h.symm.trans hbad.context) (by decide)
    · exact absurd h hname.1
    · exact absurd h hname.2
    · rw [h]
      exact contextLoose_iff_context h
    · rw [h]
      exact iff_of_true routine_iff fun hbad => absurd (h.symm.trans hbad.context) (by decide)
    · rw [h]
      exact iff_of_true Iff.rfl fun hbad => absurd (h.symm.trans hbad.context) (by decide)
  · refine iff_of_true ?_ fun hbad => hkind (by rw [hbad.context]; decide)
    exact iff_of_false (accepts_of_notMem _ hkind) (admissible_of_notMem _ hkind)

/-- **The other sections.** They are returned exactly if they are admissible, with an empty name and
description where these are missing, unless they are contexts whose check counts the wrong key. -/
theorem returned_iff {s : SectionText} (rest : Rest)
    (hname : s.name ≠ "buffers" ∧ s.name ≠ "runtime") (htyped : ∀ p ∈ s.properties, p.WellTyped) :
    (((∃ t, Returns s rest t) ↔ Admissible s.name s.properties) ∧
      ∀ t, Returns s rest t → ∀ key, t.values key = sectionValues s.name s.properties key) ↔
    ¬Miscounts s := by
  have hvalues (t : Section) (h : Returns s rest t) (key : String) :
      t.values key = sectionValues s.name s.properties key :=
    (sectionOf_eq_ok s.name s.properties (returns_iff.mp h)).2 key
  rw [← accepts_iff_admissible hname, exists_returns_iff]
  constructor
  · rintro ⟨h, -⟩
    exact ⟨fun haccepts => h.mp ⟨htyped, haccepts⟩, fun hadmissible => (h.mpr hadmissible).2⟩
  · intro h
    exact ⟨⟨fun haccepts => h.mp haccepts.2, fun hadmissible => ⟨htyped, h.mpr hadmissible⟩⟩, hvalues⟩

def property (key value : String)
    (h : Solid key.toList ∧ '=' ∉ key.toList ∧ key.toList.head? ≠ some '[' ∧ Solid value.toList ∧
      ';' ∉ value.toList ∧ value.toList ≠ []) : Property :=
  ⟨key, value, h.1, h.2.1, h.2.2.1, h.2.2.2.1, h.2.2.2.2.1, h.2.2.2.2.2⟩

/-- `[context]parent=p;persistentpar=true;` -/
def contextText : SectionText where
  name := "context"
  properties := [property "parent" "p" (by decide), property "persistentpar" "true" (by decide)]
  name_solid := by decide
  name_clean := by decide
  name_ne := by decide

/-- `[attribute]lazy=true;persistent=false;` -/
def attributeText : SectionText where
  name := "attribute"
  properties := [property "lazy" "true" (by decide), property "persistent" "false" (by decide)]
  name_solid := by decide
  name_clean := by decide
  name_ne := by decide

def noRest : Rest := ⟨[], solid_nil, stops_nil⟩

theorem returned_iff_attribute :
    (((∃ t, Returns attributeText noRest t) ↔
        Admissible attributeText.name attributeText.properties) ∧
      ∀ t, Returns attributeText noRest t → ∀ key,
        t.values key = sectionValues attributeText.name attributeText.properties key) ↔
    ¬Miscounts attributeText :=
  returned_iff noRest (by decide) (by decide)

/-- A context with one `persistentpar` panics. -/
theorem context_panics :
    (∀ p ∈ contextText.properties, p.WellTyped) ∧
      Admissible contextText.name contextText.properties ∧
      Panics (parseSection (utf8 (contextText.text ++ noRest.text))) := by
  have htyped : ∀ p ∈ contextText.properties, p.WellTyped := by decide
  refine ⟨htyped, ⟨by decide, by decide, by decide⟩, ?_⟩
  rw [parseSection_text contextText noRest.solid noRest.stops, panics_map]
  refine (panics_sectionOf _ _).mpr (.inr ⟨htyped, .inr ⟨?_, ?_, ?_, ?_⟩⟩)
  · decide
  · decide
  · decide
  · decide

end Jxtd.Engug.Edc
