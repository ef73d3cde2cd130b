import Jxtd.Lib.Strings
import Jxtd.Router.Session

/-!
# Programs that the router runs

`TRANS` and `STRANS` of `router/lib/cmd.cc`, with the program that the child executes.

* `Shell`: what is outside.
* `commands`, `execvp`, `TRANS`, `STRANS`: the commands.
* `words`: the words of a string.
* **`execvp_iff`**: the words are executed exactly when a single space follows each of them, and
  nothing else is there.
* `STRANS_none`: nothing is executed as another user.
* **`runs_iff`**: both commands run what they should.
-/

namespace Jxtd.Router

open Lib Lib.Posix

/-- Whether `pipe` and `fork` succeed; and, for the arguments of a program, what is read from it
until its end and whether it reports success. There is no end if it cannot be executed: the child
then goes on as a second router, with the pipe as its output. -/
structure Shell where
  pipe : Bool
  fork : Bool
  run : List Str → Option (Str × Bool)

/-- The space. -/
def space : UInt8 := 0x20

/-- The loop of the child over its data. -/
def commands (data : Str) : List Str :=
  match _h : findFirstOf data space with
  | none => []
  | some pos => data.take pos :: commands (data.drop (pos + 1))
termination_by data.length
decreasing_by
  have := (List.findIdx?_eq_some_iff_getElem.mp _h).1
  rw [List.length_drop]
  omega

/-- `execvp`: the arguments of the program that is executed. Without a name there is none. -/
def execvp (argv : List Str) : Option (List Str) :=
  match argv with
  | [] => none
  | file :: args => if file = [] then none else some (file :: args)

/-- What the parent reads; an empty name is no program. -/
def Shell.wait (shell : Shell) (argv : List Str) : Option (Str × Bool) :=
  if argv.head? = some [] then none else shell.run argv

/-- `TRANS`, with the arguments of the program that is executed. -/
def TRANS (shell : Shell) (message : ATMessage) : Answer × Option (List Str) :=
  match message.type, message.param with
  | .LONG, [param] =>
    match stoi param with
    | .error _ => (none, none)
    | .ok _ =>
      if !shell.pipe then (lit "Failed to create pipe", none)
      else if !shell.fork then (lit "Failed to fork", none)
      else
        let argv := (commands message.data).map cstr
        let answer := (shell.wait argv).map fun (output, succeeded) =>
          output ++
            if succeeded then lit "\r\n<<<\r\n" else lit "\r\n<<<Command failed to execute\r\n"
        (answer, execvp argv)
  | _, _ => (lit "AT+ENVAL", none)

def STRANS (shell : Shell) (message : ATMessage) : Answer × Option (List Str) :=
  match message.type, message.param with
  | .LONG, [param] =>
    let pos := findPart message.data []
    -- also where nothing is found, since no position is negative
    let command := message.data.take (pos.getD message.data.length)
    if command ≠ lit "ip" ∧ command ≠ lit "ifconfig" then (lit "Wrong sudo command", none)
    else
      match stoi param with
      | .error _ => (none, none)
      | .ok length =>
        TRANS shell { message with
          param := [decimalInt ((length + 5).bmod (2 ^ 32))]
          data := lit "sudo " ++ message.data }
  | _, _ => (lit "AT+ENVAL", none)

/-! ## Words -/

/-- The words of a string: what stands between spaces and is not empty. -/
def words (data : Str) : List Str := (data.splitOn space).filter fun w => w ≠ []

/-- The program that `TRANS` should execute. -/
def wanted (data : Str) : Option (List Str) := if words data = [] then none else some (words data)

/-- The program that `STRANS` should execute. -/
def wantedSudo (data : Str) : Option (List Str) :=
  if (words data).head? = some (lit "ip") ∨ (words data).head? = some (lit "ifconfig") then
    some (lit "sudo" :: words data)
  else none

/-- The data is its words, with one space behind each, and they are C strings. -/
def Spaced (data : Str) : Prop :=
  (∀ w ∈ words data, 0 ∉ w) ∧ data = (words data).flatMap (· ++ [space])

variable {data : Str}

theorem commands_of_notMem (h : space ∉ data) : commands data = [] := by
  rw [commands]
  split
  · rfl
  · rename_i hpos
    rw [findFirstOf_of_notMem h] at hpos
    cases hpos

theorem commands_append {w : Str} (h : space ∉ w) (rest : Str) :
    commands (w ++ space :: rest) = w :: commands rest := by
  have hpos := findFirstOf_append h rest
  rw [commands]
  split
  · rename_i hnone
    rw [hpos] at hnone
    cases hnone
  · rename_i pos hsome
    rw [hpos] at hsome
    obtain rfl := Option.some.inj hsome
    rw [List.take_left, drop_past]

/-- **What stands before each space**, and what is left over. -/
theorem splitOn_eq (data : Str) : ∃ last, (∀ w ∈ commands data ++ [last], space ∉ w) ∧
    data = (commands data).flatMap (· ++ [space]) ++ last ∧
    words data = (commands data ++ [last]).filter fun w => w ≠ [] := by
  induction hn : data.length using Nat.strong_induction_on generalizing data with
  | _ n ih =>
    cases hpos : findFirstOf data space with
    | none =>
      have hmem := notMem_of_findFirstOf hpos
      refine ⟨data, ?_, ?_, ?_⟩
      · rw [commands_of_notMem hmem]
        exact List.forall_mem_singleton.mpr hmem
      · rw [commands_of_notMem hmem]
        rfl
      · rw [words, commands_of_notMem hmem, List.splitOn_eq_singleton hmem]
        rfl
    | some pos =>
      obtain ⟨hmem, hsplit⟩ := findFirstOf_eq_some hpos
      have hlt : (data.drop (pos + 1)).length < n := by
        have hlen := congrArg List.length hsplit
        rw [List.length_append, List.length_cons] at hlen
        omega
      obtain ⟨last, hall, hdata, hwords⟩ := ih _ hlt _ rfl
      refine ⟨last, ?_, ?_, ?_⟩
      · rw [← hsplit, commands_append hmem]
        exact List.forall_mem_cons.mpr ⟨hmem, hall⟩
      · rw [← hsplit, commands_append hmem, List.flatMap_cons, List.append_assoc, ← hdata]
        simp
      · rw [words] at hwords
        rw [words, ← hsplit, List.splitOn_append_cons_self_of_not_mem hmem, commands_append hmem,
          List.cons_append, List.filter_cons, List.filter_cons, hwords]

theorem ne_nil_of_mem_words {w : Str} (h : w ∈ words data) : w ≠ [] := by
  simpa using (List.mem_filter.mp h).2

theorem space_notMem_words {w : Str} (h : w ∈ words data) : space ∉ w := by
  obtain ⟨last, hspace, -, hwords⟩ := splitOn_eq data
  rw [hwords] at h
  exact hspace w (List.mem_filter.mp h).1

/-- Words with a space behind each are taken apart again. -/
theorem commands_flatMap {ws : List Str} (h : ∀ w ∈ ws, space ∉ w) :
    commands (ws.flatMap (· ++ [space])) = ws := by
  induction ws with
  | nil => exact commands_of_notMem (by simp)
  | cons w ws ih =>
    obtain ⟨hw, hws⟩ := List.forall_mem_cons.mp h
    rw [List.flatMap_cons, List.append_assoc, List.singleton_append, commands_append hw, ih hws]

/-! ## What is executed -/

theorem execvp_eq_some {argv ws : List Str} (h : execvp argv = some ws) : argv = ws := by
  cases argv with
  | nil => cases h
  | cons file args =>
    rw [execvp] at h
    split_ifs at h
    exact Option.some.inj h

theorem execvp_of_ne {argv : List Str} (hne : argv ≠ []) (h : ∀ w ∈ argv, w ≠ []) :
    execvp argv = some argv := by
  obtain ⟨file, args, rfl⟩ := List.exists_cons_of_ne_nil hne
  exact if_neg (h file List.mem_cons_self)

/-- Without words, no program has a name. -/
theorem execvp_of_words (h : words data = []) : execvp ((commands data).map cstr) = none := by
  obtain ⟨last, -, -, hwords⟩ := splitOn_eq data
  rw [h] at hwords
  cases hcommands : commands data with
  | nil => rfl
  | cons w ws =>
    have hw : w = [] := by
      have hnot := List.filter_eq_nil_iff.mp hwords.symm w (by simp [hcommands])
      simpa using hnot
    rw [hw]
    rfl

/-- **The words are executed** exactly when there are none, or a single space follows each of them
and nothing else is there. -/
theorem execvp_iff :
    execvp ((commands data).map cstr) = wanted data ↔ words data = [] ∨ Spaced data := by
  obtain ⟨last, -, hdata, hwords⟩ := splitOn_eq data
  constructor
  · intro h
    by_cases hnil : words data = []
    · exact .inl hnil
    rw [wanted, if_neg hnil] at h
    have hmap : (commands data).map cstr = words data := execvp_eq_some h
    have hne : ∀ w ∈ commands data, w ≠ [] := by
      rintro w hw rfl
      exact ne_nil_of_mem_words (hmap ▸ List.mem_map_of_mem hw : cstr [] ∈ words data) rfl
    have hkeep : (commands data).filter (fun w => w ≠ []) = commands data :=
      List.filter_eq_self.mpr fun w hw => decide_eq_true (hne w hw)
    rw [List.filter_append, hkeep] at hwords
    have hlast : [last].filter (fun w => w ≠ []) = [] := by
      have hlen := congrArg List.length (hmap.trans hwords)
      rw [List.length_map, List.length_append] at hlen
      exact List.length_eq_zero_iff.mp (by omega)
    have hlast' : last = [] := by simpa using hlast
    rw [hlast, List.append_nil] at hwords
    refine .inr ⟨fun w hw => ?_, ?_⟩
    · obtain ⟨c, -, rfl⟩ := List.mem_map.mp (hmap ▸ hw)
      exact notMem_cstr c
    · rw [hwords]
      rwa [hlast', List.append_nil] at hdata
  · rintro (hnil | ⟨hzero, hspaced⟩)
    · rw [execvp_of_words hnil, wanted, if_pos hnil]
    · by_cases hnil : words data = []
      · rw [execvp_of_words hnil, wanted, if_pos hnil]
      have hcommands : commands data = words data := by
        conv_lhs => rw [hspaced]
        exact commands_flatMap fun w hw => space_notMem_words hw
      have hmap : (words data).map cstr = words data := by
        conv_rhs => rw [← List.map_id (words data)]
        exact List.map_congr_left fun w hw => cstr_of_notMem (hzero w hw)
      rw [hcommands, hmap, wanted, if_neg hnil]
      exact execvp_of_ne hnil fun w hw => ne_nil_of_mem_words hw

/-- Nothing is executed as another user: the word that is looked at is empty. -/
theorem STRANS_none (shell : Shell) (message : ATMessage) : (STRANS shell message).2 = none := by
  unfold STRANS
  split
  · rw [findPart_nil]
    rfl
  · rfl

/-- Both commands run the words of their data. -/
structure Runs (shell : Shell) (param data : Str) : Prop where
  trans : (TRANS shell ⟨.LONG, [param], data⟩).2 = wanted data
  strans : (STRANS shell ⟨.LONG, [param], data⟩).2 = wantedSudo data

/-- Without words nothing is executed. -/
theorem TRANS_of_words (shell : Shell) (param : Str) (h : words data = []) :
    (TRANS shell ⟨.LONG, [param], data⟩).2 = none := by
  unfold TRANS
  dsimp only
  split
  · rfl
  · split_ifs
    · rfl
    · rfl
    · exact execvp_of_words h

/-- `TRANS` runs the words if the child comes into being; without words it has nothing to run. -/
theorem TRANS_iff {shell : Shell} {param : Str} :
    (TRANS shell ⟨.LONG, [param], data⟩).2 = wanted data ↔
      words data = [] ∨ (shell.pipe ∧ shell.fork ∧ IsInt param ∧ Spaced data) := by
  by_cases hnil : words data = []
  · rw [TRANS_of_words shell param hnil, wanted, if_pos hnil]
    exact iff_of_true rfl (.inl hnil)
  have hwanted : none ≠ wanted data := by
    rw [wanted, if_neg hnil]
    exact nofun
  cases hparam : stoi param with
  | error error =>
    have hint : ¬ IsInt param := by
      rw [IsInt, hparam]
      exact Bool.false_ne_true
    simp only [TRANS, hparam, hnil, hint]
    exact iff_of_false hwanted (by simp)
  | ok n =>
    have hint : IsInt param := isInt_iff.mpr ⟨n, hparam⟩
    cases hpipe : shell.pipe with
    | false =>
      simp only [TRANS, hparam, hpipe, hnil]
      exact iff_of_false hwanted (by simp)
    | true =>
      cases hfork : shell.fork with
      | false =>
        simp only [TRANS, hparam, hpipe, hfork, hnil]
        exact iff_of_false hwanted (by simp)
      | true =>
        have hexecvp : execvp ((commands data).map cstr) = wanted data ↔
            words data = [] ∨ Spaced data := execvp_iff
        simp only [TRANS, hparam, hpipe, hfork]
        simpa [hnil, hint] using hexecvp

/-- **Both commands run what they should** exactly when the data is words that are C strings, with
one space behind each, or no words at all, and the first one is neither `ip` nor `ifconfig`; for
the words, the parameter has to be an integer, and the child must come into being. -/
theorem runs_iff {shell : Shell} {param : Str} : Runs shell param data ↔
    (words data = [] ∨ (shell.pipe ∧ shell.fork ∧ IsInt param ∧ Spaced data)) ∧
      (words data).head? ≠ some (lit "ip") ∧ (words data).head? ≠ some (lit "ifconfig") := by
  have hstrans : none = wantedSudo data ↔
      (words data).head? ≠ some (lit "ip") ∧ (words data).head? ≠ some (lit "ifconfig") := by
    rw [wantedSudo, ← not_or]
    split_ifs with h
    · exact iff_of_false (by simp) (not_not_intro h)
    · exact iff_of_true rfl h
  constructor
  · intro h
    have hnone := h.strans
    rw [STRANS_none] at hnone
    exact ⟨TRANS_iff.mp h.trans, hstrans.mp hnone⟩
  · rintro ⟨htrans, hfirst⟩
    exact ⟨TRANS_iff.mpr htrans, (STRANS_none _ _).trans (hstrans.mpr hfirst)⟩

/-- **The last word is lost** when no space follows it. -/
theorem last_word_lost : ¬ ∀ (shell : Shell) (param data : Str), shell.pipe → shell.fork →
    IsInt param → Runs shell param data := by
  intro h
  have hruns := h ⟨true, true, fun _ => some ([], true)⟩ (lit "9") (lit "ls -l") rfl rfl
    (by decide)
  obtain hnil | ⟨-, -, -, -, hspaced⟩ := TRANS_iff.mp hruns.trans
  · exact absurd hnil (by decide)
  · exact absurd hspaced (by decide)

end Jxtd.Router
