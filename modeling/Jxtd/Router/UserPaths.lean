import Jxtd.Lib.Run
import Jxtd.Misc.ATParser
import Jxtd.Router.Change

/-!
# The paths of the commands

* `Inside`, `Inside.resolve`: a path that leads to the directory of a name, beside the working
  directory, or to an entry of it.
* `Accepted`, `Contained`: commands that the parser accepts, and those among them that do not leave
  the directory.
* `Tame`, **`tame_after`**, **`touches_after`**: what these commands keep, and which paths they use.
* **`inside_foldl`**: while all commands are contained, every path is one of the user.
-/

namespace Jxtd.Router

open Lib Lib.Posix Lib.Posix.Fs
open Misc.ATParser

/-- The path leads to the directory with this name in the parent directory, or to an entry of it. -/
def Inside (cwd : Path) (name path : Str) : Prop :=
  Clean name ∧ Plain name ∧ (place cwd path = cwd.dropLast ++ [name] ∨
    ∃ f, Plain f ∧ place cwd path = cwd.dropLast ++ [name, f])

/-- What a path inside stands for, if it can be walked. -/
theorem Inside.resolve {fs : Fs} {name path : Str} {p : Path} (h : Inside fs.cwd name path)
    (hp : fs.resolve path = some p) :
    p = fs.cwd.dropLast ++ [name] ∨ ∃ f, Plain f ∧ p = fs.cwd.dropLast ++ [name, f] := by
  obtain ⟨-, -, hplace⟩ := h
  rwa [resolve_eq_place hp] at hplace

/-! ## The names of the paths -/

variable {cwd : Path} {name f : Str}

theorem cstr_lit_up (s : Str) : cstr (lit "../" ++ s) = lit "../" ++ cstr s :=
  cstr_append (by decide) s

/-- A path beside the working directory. -/
theorem place_up (cwd : Path) (s : Str) :
    place cwd (lit "../" ++ s) = lexical cwd.dropLast (components (cstr s)) := by
  have hsplit : lit "../" ++ cstr s = lit ".." ++ slash :: cstr s := rfl
  have hhead : (lit "../" ++ cstr s).head? ≠ some slash := by
    intro hslash
    revert hslash
    exact (by decide : ¬ some (0x2e : UInt8) = some slash)
  rw [place, cstr_lit_up, if_neg hhead, hsplit, components_append, lexical_append]
  rfl

/-- Two names, the second of which may be empty. -/
theorem place_two (hclean : Clean name) (hplain : Plain name) (hf : Clean f) :
    place cwd (userDir name ++ f) = lexical (cwd.dropLast ++ [name]) [f] := by
  have hsplit : userDir name ++ f = lit "../" ++ (name ++ slash :: f) := by
    simp [userDir, lit, slash]
  have hcstr : cstr (name ++ slash :: f) = name ++ slash :: f := by
    refine cstr_of_notMem ?_
    simp [hclean.1, hf.1, slash]
  rw [hsplit, place_up, hcstr, components_append, components_of_notMem hclean.2,
    components_of_notMem hf.2, lexical_append]
  simp only [lexical]
  rw [if_neg (not_or.mpr ⟨hplain.1, hplain.2.1⟩), if_neg hplain.2.2]

theorem inside_userDir (hclean : Clean name) (hplain : Plain name) :
    Inside cwd name (userDir name) := by
  refine ⟨hclean, hplain, .inl ?_⟩
  have hnil : Clean [] := ⟨by simp, by simp⟩
  have htwo : place cwd (userDir name ++ []) = _ := place_two hclean hplain hnil
  rw [List.append_nil] at htwo
  exact htwo

theorem inside_modelFile (hclean : Clean name) (hplain : Plain name) (hf : Clean f)
    (hne : f ≠ []) (hup : f ≠ lit "..") : Inside cwd name (modelFile name f) := by
  refine ⟨hclean, hplain, ?_⟩
  rw [modelFile, place_two hclean hplain hf]
  by_cases hdot : f = lit "."
  · left
    rw [hdot]
    rfl
  · right
    refine ⟨f, ⟨hne, hdot, hup⟩, ?_⟩
    rw [lexical, if_neg (not_or.mpr ⟨hne, hdot⟩), if_neg hup, lexical, List.append_assoc]
    rfl

/-- A parameter is part of a name. -/
theorem clean_of_word {p : Str} (h : Word paramByte p) : Clean p := by
  have hnot {b : UInt8} (hb : paramByte b = false) : b ∉ p := fun hmem => by
    rw [h.2 b hmem] at hb
    cases hb
  exact ⟨hnot (by decide), hnot (by decide)⟩

namespace Session

/-! ## Commands -/

def message : Command → ATMessage
  | .REG message | .RTUNREG message | .MDDECL _ message | .MDRM message | .MDPUSH _ _ _ message
  | .CPSTART _ message => message

/-- The parser accepts the message of a command. -/
def Accepted (c : Command) : Prop := ∃ text m, parse text = some m ∧ m.toATMessage = message c

variable {φ : Type} {ops : FileOps φ} {s : Session φ}

/-- A command that stays inside: no name consists of dots only, and a model is made for a user. -/
def Contained (s : Session φ) (c : Command) : Prop :=
  Accepted c ∧
    match c with
    | .REG message => message.param ≠ [lit "."] ∧ message.param ≠ [lit ".."]
    | .MDDECL _ message => message.type = .LONG → s.user ≠ []
    | .MDRM message => ¬ message.Selects (lit "name") (lit "..")
    | .RTUNREG _ | .MDPUSH _ _ _ _ | .CPSTART _ _ => True

theorem word_of_accepted {c : Command} (h : Accepted c) :
    ∀ p ∈ (message c).param, Word paramByte p := by
  obtain ⟨text, m, hparse, hm⟩ := h
  rw [← hm]
  exact (parse_sound hparse).1.param

/-- The names of a session whose commands are contained. -/
structure Tame (s : Session φ) : Prop where
  user : s.user ≠ [] → Clean s.user ∧ Plain s.user
  name : ∀ engine ∈ s.enginePrivate, Word paramByte engine.1
  drawn : ∀ engine ∈ s.enginePrivate, ∃ draw : Drawn, draw.id = engine.2

theorem Tame.mono {s' : Session φ} (h : Tame s) (huser : s'.user = s.user)
    (hprivate : ∀ engine ∈ s'.enginePrivate, engine ∈ s.enginePrivate) : Tame s' :=
  ⟨by rw [huser]; exact h.user, fun engine he => h.name engine (hprivate engine he),
    fun engine he => h.drawn engine (hprivate engine he)⟩

/-- **A contained command** keeps the names. -/
theorem tame_after (ops : FileOps φ) (h : Tame s) {c : Command} (hc : s.Contained c) :
    Tame (s.after ops c) := by
  have hchange := change_step ops s c
  have hwords := word_of_accepted hc.1
  unfold after
  generalize s.step ops c = out at hchange
  cases hchange with
  | same => exact h
  | renamed htype hparam hname hanswer =>
    rename_i message name answer
    have hword : Word paramByte name := hwords name (by rw [Session.message, hparam]; simp)
    obtain ⟨hdot, hup⟩ := hc.2
    rw [hparam] at hdot hup
    refine ⟨fun _ => ⟨clean_of_word hword, hword.1, ?_, ?_⟩, h.name, h.drawn⟩
    · rintro rfl
      exact hdot rfl
    · rintro rfl
      exact hup rfl
  | unregistered => exact ⟨fun hne => absurd rfl hne, h.name, h.drawn⟩
  | declared answer hcreates hopened =>
    rename_i draws message name draw
    have hword : Word paramByte name := hwords name (by
      rw [Session.message, hcreates.param]; simp)
    refine ⟨h.user, fun engine he => ?_, fun engine he => ?_⟩
    · rcases List.mem_append.mp he with he | he
      · exact h.name engine he
      · obtain rfl := List.mem_singleton.mp he
        exact hword
    · rcases List.mem_append.mp he with he | he
      · exact h.drawn engine he
      · obtain rfl := List.mem_singleton.mp he
        exact ⟨draw, rfl⟩
  | removedById | removedByName | forgotten | pushed =>
    exact h.mono rfl fun engine he => List.mem_of_mem_eraseP he
  | stuck | added | unopened | removedCloud | read | started => exact h.mono rfl fun _ he => he

/-! ## The paths that are used -/

/-- Every path that is new in the record is inside, for the user before or after. -/
def Touches (cwd : Path) (s s' : Session (φ × List Str)) : Prop :=
  ∃ paths, s'.files.2 = s.files.2 ++ paths ∧
    ∀ path ∈ paths, ∃ name, (name = s.user ∨ name = s'.user) ∧ Inside cwd name path

variable {t t' : Session (φ × List Str)}

theorem touches_nothing (h : t'.files.2 = t.files.2) : Touches cwd t t' :=
  ⟨[], by rw [h, List.append_nil], fun path hpath => by cases hpath⟩

theorem touches_one {path : Str} (h : t'.files.2 = t.files.2 ++ [path])
    (hpath : Inside cwd t.user path) : Touches cwd t t' := by
  refine ⟨[path], h, fun p hp => ?_⟩
  obtain rfl := List.mem_singleton.mp hp
  exact ⟨t.user, .inl rfl, hpath⟩

/-- The path of a private model. -/
theorem Tame.inside (h : Tame s) (huser : s.user ≠ []) {engine : Str × Str}
    (hmem : engine ∈ s.enginePrivate) : Inside cwd s.user (modelFile s.user engine.2) := by
  obtain ⟨hclean, hplain⟩ := h.user huser
  obtain ⟨draw, hdraw⟩ := h.drawn engine hmem
  rw [← hdraw]
  exact inside_modelFile hclean hplain draw.clean draw.ne_nil draw.plain.2.2

/-- **A contained command** uses only paths inside. -/
theorem touches_after (h : Tame t) {c : Command} (hc : t.Contained c) :
    Touches cwd t (t.after (logged ops) c) := by
  have hchange := change_step (logged ops) t c
  have htame := tame_after (logged ops) h hc
  unfold after at htame ⊢
  generalize t.step (logged ops) c = out at hchange htame
  have hdir (huser : t.user ≠ []) : Inside cwd t.user (userDir t.user) :=
    inside_userDir (h.user huser).1 (h.user huser).2
  cases hchange with
  | same | added | removedCloud | forgotten => exact touches_nothing rfl
  | stuck c answer huser | unregistered answer htype hparam huser =>
    exact touches_one rfl (hdir huser)
  | renamed htype hparam hname hanswer =>
    rename_i message name answer
    have hword : Word paramByte name := word_of_accepted hc.1 name (by
      rw [Session.message, hparam]; simp)
    obtain ⟨hclean, hplain⟩ := htame.user hword.1
    have hnew : Inside cwd name (userDir name) := inside_userDir hclean hplain
    by_cases huser : t.user = []
    · refine ⟨[userDir name], ?_, ?_⟩
      · simp only [cleared, if_pos huser]
        rfl
      · intro path hpath
        obtain rfl := List.mem_singleton.mp hpath
        exact ⟨name, .inr rfl, hnew⟩
    · refine ⟨[userDir t.user, userDir name], ?_, ?_⟩
      · simp only [cleared, if_neg huser]
        simp [logged, note]
      · intro path hpath
        rcases List.mem_cons.mp hpath with rfl | hpath
        · exact ⟨t.user, .inl rfl, hdir huser⟩
        · obtain rfl := List.mem_singleton.mp hpath
          exact ⟨name, .inr rfl, hnew⟩
  | declared answer hcreates | unopened answer hcreates =>
    rename_i draws message name draw _
    have huser := hc.2 hcreates.type
    obtain ⟨hclean, hplain⟩ := h.user huser
    exact touches_one rfl (inside_modelFile hclean hplain draw.clean draw.ne_nil draw.plain.2.2)
  | removedById answer huser hfind =>
    exact touches_one rfl (h.inside huser (List.mem_of_find?_eq_some hfind))
  | removedByName answer huser hsel hfind =>
    rename_i message engine
    obtain ⟨hclean, hplain⟩ := h.user huser
    have hword := h.name engine (List.mem_of_find?_eq_some hfind)
    refine touches_one rfl (inside_modelFile hclean hplain (clean_of_word hword) hword.1 ?_)
    intro hup
    rw [hup] at hsel
    exact hc.2 hsel
  | read c answer huser hmem => exact touches_one rfl (h.inside huser hmem)
  | pushed c answer huser hfind =>
    rename_i engine found
    have hinside : Inside cwd t.user (modelFile t.user engine.2) :=
      h.inside huser (List.mem_of_find?_eq_some hfind)
    refine ⟨[modelFile t.user engine.2, modelFile t.user engine.2], ?_, ?_⟩
    · simp [reading, logged, note]
    · intro path hpath
      obtain rfl : path = modelFile t.user engine.2 := by simpa using hpath
      exact ⟨t.user, .inl rfl, hinside⟩
  | started remote message answer task huser hfiles =>
    rcases hfiles with rfl | ⟨engine, hmem, rfl⟩
    · exact touches_nothing rfl
    · exact touches_one rfl (h.inside huser hmem)

theorem tame_new (files : φ) : Tame { files } where
  user huser := absurd rfl huser
  name engine he := by cases he
  drawn engine he := by cases he

/-- **Every path is one of the user**, while all commands are contained. -/
theorem inside_foldl (ops : FileOps φ) (cwd : Path) (files : φ) {commands : List Command}
    (h : Along Contained (after (logged ops)) { files := (files, []) } commands)
    (before : List Command) (c : Command) (rest : List Command)
    (hsplit : commands = before ++ c :: rest) :
    Touches cwd (before.foldl (after (logged ops)) { files := (files, []) })
      ((before ++ [c]).foldl (after (logged ops)) { files := (files, []) }) := by
  subst hsplit
  obtain ⟨hbefore, hc, -⟩ := (along_append _ _ _).mp h
  have htame : Tame (before.foldl (after (logged ops)) { files := (files, []) }) :=
    hbefore.foldl (I := Tame) (fun _ _ hs hc => tame_after _ hs hc) (tame_new _)
  rw [List.foldl_append]
  exact touches_after htame hc

/-- The registration of a name. -/
def register (name : Str) : Command := .REG ⟨.CMD, [name], []⟩

theorem accepted_register {name : Str} (h : Word paramByte name) : Accepted (register name) := by
  have hvalid : (ATCommand.mk ⟨.CMD, [name], []⟩ (lit "REG")).Valid := by
    refine ⟨?_, List.forall_mem_singleton.mpr h, ?_, ?_, fun _ => rfl⟩
    · exact (by decide : Word upper (lit "REG"))
    · simp
    · simp
  have hparse := parse_render hvalid (by simp)
  exact ⟨_, _, hparse, rfl⟩

theorem contained_register : Along Contained (after (logged localFiles))
    { files := (emptyFs, []) } [register (lit "a"), register (lit "b")] := by
  refine ⟨⟨?_, by decide, by decide⟩, ⟨?_, by decide, by decide⟩, trivial⟩
  · exact accepted_register (by decide)
  · exact accepted_register (by decide)

/-- A name is registered again. -/
theorem inside_register :
    Touches [lit "home", lit "r"] ([register (lit "a")].foldl (after (logged localFiles))
        { files := (emptyFs, []) })
      (([register (lit "a")] ++ [register (lit "b")]).foldl (after (logged localFiles))
        { files := (emptyFs, []) }) :=
  inside_foldl localFiles [lit "home", lit "r"] emptyFs contained_register [register (lit "a")]
    (register (lit "b")) [] rfl

/-- **A name of two dots**: the parent of the parent directory is removed when a name is registered
again. -/
theorem registered_outside : ¬ ∀ (cwd : Path) (files : Fs) (commands : List Command),
    (∀ c ∈ commands, Accepted c) → ∀ before c rest, commands = before ++ c :: rest →
      Touches cwd (before.foldl (after (logged localFiles)) { files := (files, []) })
        ((before ++ [c]).foldl (after (logged localFiles)) { files := (files, []) }) := by
  intro h
  have haccepted : ∀ c ∈ [register (lit ".."), register (lit "b")], Accepted c := by
    intro c hc
    rcases List.mem_cons.mp hc with rfl | hc
    · exact accepted_register (by decide)
    · obtain rfl := List.mem_singleton.mp hc
      exact accepted_register (by decide)
  obtain ⟨paths, hpaths, hinside⟩ := h [lit "home", lit "r"] emptyFs _ haccepted
    [register (lit "..")] (register (lit "b")) [] rfl
  have hrecord : ([register (lit "..")].foldl (after (logged localFiles))
      { files := (emptyFs, []) }).files.2 = [lit "../../"] := by
    decide +kernel
  have hrecord' : (([register (lit "..")] ++ [register (lit "b")]).foldl
      (after (logged localFiles)) { files := (emptyFs, []) }).files.2 =
        [lit "../../"] ++ [lit "../../", lit "../b/"] := by
    decide +kernel
  rw [hrecord, hrecord'] at hpaths
  have hmem : lit "../../" ∈ paths := by
    rw [← List.append_cancel_left hpaths]
    exact List.mem_cons_self
  have hplace : place [lit "home", lit "r"] (lit "../../") = [] := by decide +kernel
  obtain ⟨name, -, -, -, hname⟩ := hinside _ hmem
  rw [hplace] at hname
  simp at hname

end Session

end Jxtd.Router
