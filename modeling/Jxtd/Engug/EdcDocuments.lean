import Jxtd.Engug.EdcAccepts

/-!
# EDC files

The sections of a file are read one after the other, until no section stands there or one is not
accepted; what follows is dropped, and no error is reported.

* `stripped_eq`: the text that is parsed.
* **`many0_sections`**: accepted sections are read; `exists_accepted`, `many0_cases`: what is read of
  any text.
* **`parse_printed`**: a file of accepted sections is read.
* **`parse_sound_iff`**: nothing is dropped exactly if the file holds accepted sections only.
* **`parse_panics_iff`**: when the parser panics.
-/

namespace Jxtd.Engug.Edc

open Lib

/-! ## The text without whitespace -/

theorem filter_dropWhile_whitespace (cs : List Char) :
    (cs.dropWhile isWhitespace).filter (fun c => !isWhitespace c) =
      cs.filter fun c => !isWhitespace c := by
  induction cs with
  | nil => rfl
  | cons c cs ih =>
    by_cases h : isWhitespace c = true
    · rw [List.dropWhile_cons_of_pos h, ih, List.filter_cons_of_neg (by simp [h])]
    · rw [List.dropWhile_cons_of_neg h]

theorem stripped_eq (text : String) :
    stripped text = text.toList.filter fun c => !isWhitespace c := by
  rw [stripped, trimChars, List.filter_reverse, filter_dropWhile_whitespace, List.filter_reverse,
    List.reverse_reverse, filter_dropWhile_whitespace]

theorem solid_stripped (text : String) : Solid (stripped text) := by
  intro c hc
  rw [stripped_eq, List.mem_filter] at hc
  simpa using hc.2

theorem parse_bytes (text : String) :
    parse (bytes text) = match many0 parseSection (utf8 (stripped text)) with
      | .ok result => .ok result.2
      | .error (.panics msg) => .error (.panics msg)
      | .error _ => .error .error := by
  have hread := fromUtf8_bytes text
  unfold parse
  generalize fromUtf8 (bytes text) = read at hread ⊢
  subst hread
  rfl

/-! ## Sections one after the other -/

/-- The section is accepted. -/
def SectionText.Accepted (s : SectionText) : Prop :=
  (∀ p ∈ s.properties, p.WellTyped) ∧ Accepts s.name s.properties

/-- The section panics: a number does not fit, or a key that is needed is missing. -/
def SectionText.Panicking (s : SectionText) : Prop :=
  FirstFails Property.WellTyped Property.Overflows s.properties ∨
    (∀ p ∈ s.properties, p.WellTyped) ∧ Missing s.name s.properties

/-- What is made of a section. -/
def SectionText.Gives (s : SectionText) (t : Section) : Prop := sectionOf s.name s.pairs = .ok t

theorem SectionText.accepted_iff (s : SectionText) : s.Accepted ↔ ∃ t, s.Gives t :=
  (sectionOf_isOk_iff s.name s.properties).symm

theorem exists_gives {ss : List SectionText} (h : ∀ s ∈ ss, s.Accepted) :
    ∃ ts, List.Forall₂ SectionText.Gives ss ts :=
  exists_forall₂_iff.mpr fun s hs => s.accepted_iff.mp (h s hs)

/-- **Accepted sections are read**, whatever follows them. -/
theorem many0_sections {ss : List SectionText} {ts : List Section}
    (h : List.Forall₂ SectionText.Gives ss ts) {rest : List Char} (hrest : Solid rest)
    (hstops : ss ≠ [] → Stops rest) :
    many0 parseSection (utf8 (printAll ss ++ rest)) =
      (many0 parseSection (utf8 rest)).map fun (r, us) => (r, ts ++ us) := by
  induction h with
  | nil =>
    rw [printAll, List.flatMap_nil, List.nil_append]
    cases many0 parseSection (utf8 rest) with
    | error e => rfl
    | ok out => rfl
  | @cons s t ss ts ht _ ih =>
    have hsolid : Solid (printAll ss ++ rest) := (solid_printAll ss).append hrest
    have hstops' : Stops (printAll ss ++ rest) := by
      cases ss with
      | nil => exact hstops (List.cons_ne_nil s [])
      | cons s' ss => exact stops_bracket _
    have hread : parseSection (utf8 (s.text ++ (printAll ss ++ rest))) =
        .ok (utf8 (printAll ss ++ rest), t) := by
      rw [parseSection_text s hsolid hstops', show sectionOf s.name s.pairs = .ok t from ht]
      rfl
    rw [printAll, List.flatMap_cons, List.append_assoc, ← printAll,
      many0_of_ok consumes_parseSection hread, ih fun _ => hstops (List.cons_ne_nil s ss)]
    cases many0 parseSection (utf8 rest) with
    | error e => rfl
    | ok out => rfl

/-- **Every text begins with accepted sections**, behind which none stands, or one that is not
accepted. -/
theorem exists_accepted {cs : List Char} (hcs : Solid cs) :
    ∃ (ss : List SectionText) (rest : List Char), cs = printAll ss ++ rest ∧
      (∀ s ∈ ss, s.Accepted) ∧ (ss ≠ [] → Stops rest) ∧
      (NoSection rest ∨ ∃ (s : SectionText) (r : Rest), rest = s.text ++ r.text ∧ ¬s.Accepted) := by
  by_cases hsection : NoSection cs
  · exact ⟨[], cs, rfl, fun s hs => absurd hs List.not_mem_nil, fun h => absurd rfl h, .inl hsection⟩
  · obtain ⟨s, rest, rfl, hstops⟩ := exists_split hcs hsection
    by_cases hs : s.Accepted
    · have hlt : rest.length < (s.text ++ rest).length := by
        simp only [SectionText.text, List.length_append, List.length_cons]
        omega
      obtain ⟨ss, rest', rfl, hss, hstops', hend⟩ := exists_accepted hcs.right
      refine ⟨s :: ss, rest', ?_, List.forall_mem_cons.mpr ⟨hs, hss⟩, fun _ => ?_, hend⟩
      · rw [printAll, printAll, List.flatMap_cons, List.append_assoc]
      · cases ss with
        | nil => exact hstops
        | cons s' ss => exact hstops' (List.cons_ne_nil s' ss)
    · exact ⟨[], s.text ++ rest, rfl, fun x hx => absurd hx List.not_mem_nil, fun h => absurd rfl h,
        .inr ⟨s, ⟨rest, hcs.right, hstops⟩, rfl, hs⟩⟩
termination_by cs.length

/-- A section that is not accepted ends the list or panics. -/
theorem many0_of_not_accepted {s : SectionText} (h : ¬s.Accepted) (rest : Rest) :
    (∃ out, many0 parseSection (utf8 (s.text ++ rest.text)) = .ok out) ∨
      s.Panicking ∧ Panics (many0 parseSection (utf8 (s.text ++ rest.text))) := by
  have hread := parseSection_text s rest.solid rest.stops
  cases hs : sectionOf s.name s.pairs with
  | ok t => exact absurd (s.accepted_iff.mpr ⟨t, hs⟩) h
  | error e =>
    rw [hs] at hread
    cases e with
    | error => exact .inl ⟨_, many0_of_error hread⟩
    | failure => exact absurd hs (noFailure_sectionOf s.name s.properties)
    | panics msg =>
      exact .inr ⟨(panics_sectionOf s.name s.properties).mp ⟨msg, hs⟩, msg, many0_of_panics hread⟩

/-- **What is read of any text**: some sections, or a section behind accepted ones panics. -/
theorem many0_cases {cs : List Char} (hcs : Solid cs) :
    (∃ out, many0 parseSection (utf8 cs) = .ok out) ∨
      Panics (many0 parseSection (utf8 cs)) ∧
        ∃ (ss : List SectionText) (s : SectionText) (rest : Rest),
          cs = printAll ss ++ (s.text ++ rest.text) ∧ (∀ x ∈ ss, x.Accepted) ∧ s.Panicking := by
  obtain ⟨ss, rest, rfl, hss, hstops, hend⟩ := exists_accepted hcs
  obtain ⟨ts, hts⟩ := exists_gives hss
  rw [many0_sections hts hcs.right hstops, panics_map]
  rcases hend with hnone | ⟨s, r, rfl, hs⟩
  · rw [many0_of_error (parseSection_of_noSection hcs.right hnone)]
    exact .inl ⟨_, rfl⟩
  · rcases many0_of_not_accepted hs r with ⟨out, hout⟩ | ⟨hs, hpanics⟩
    · rw [hout]
      exact .inl ⟨_, rfl⟩
    · exact .inr ⟨hpanics, ss, s, r, rfl, hss, hs⟩

/-! ## Files -/

/-- A file of accepted sections. -/
def AllAccepted (cs : List Char) : Prop := ∃ ss, cs = printAll ss ∧ ∀ s ∈ ss, s.Accepted

theorem parse_of_gives {text : String} {ss : List SectionText} {ts : List Section}
    (htext : stripped text = printAll ss) (h : List.Forall₂ SectionText.Gives ss ts) :
    parse (bytes text) = .ok ts := by
  have hmany := many0_sections h solid_nil fun _ => stops_nil
  rw [List.append_nil] at hmany
  rw [parse_bytes, htext, hmany]
  show Except.ok (ts ++ []) = _
  rw [List.append_nil]

/-- What is read of a section: its name, and under every key what is written there, with an empty
name and description where these are missing. -/
def SectionText.Denotes (s : SectionText) (t : Section) : Prop :=
  t.name = s.name ∧ ∀ key, t.getEntryBoxed key =
    if sectionValues s.name s.properties key = [] then none
    else some (sectionValues s.name s.properties key)

theorem SectionText.Gives.denotes {s : SectionText} {t : Section} (h : s.Gives t) : s.Denotes t := by
  obtain ⟨hname, hvalues⟩ := sectionOf_eq_ok s.name s.properties h
  refine ⟨hname, fun key => ?_⟩
  rw [Section.getEntryBoxed_eq, hvalues]

/-- **A file of accepted sections is read**, wherever whitespace stands in it. -/
theorem parse_printed {ss : List SectionText}
    (h : ∀ s ∈ ss, ∃ t, sectionOf s.name s.pairs = .ok t) {text : String}
    (htext : (text.toList.filter fun c => !isWhitespace c) = printAll ss) :
    ∃ ts, parse (bytes text) = .ok ts ∧ List.Forall₂ SectionText.Denotes ss ts := by
  obtain ⟨ts, hts⟩ := exists_gives fun s hs => s.accepted_iff.mpr (h s hs)
  rw [← stripped_eq] at htext
  exact ⟨ts, parse_of_gives htext hts, hts.imp fun _ _ => SectionText.Gives.denotes⟩

theorem parse_printed_attribute :
    ∃ ts, parse (bytes "[attribute]\n  lazy = true;\n  persistent = fal se;\n") = .ok ts ∧
      List.Forall₂ SectionText.Denotes [attributeText] ts := by
  refine parse_printed (fun s hs => ?_) (by decide)
  rw [List.mem_singleton.mp hs]
  exact (sectionOf_isOk_iff _ _).mpr ⟨by decide, by decide, by decide, by decide⟩

/-- **Nothing is dropped** and everything else is an error exactly if the file holds accepted
sections only: the parser reports no error of a text. -/
theorem parse_sound_iff (text : String) :
    ((∀ ts, parse (bytes text) = .ok ts →
        ∃ ss, stripped text = printAll ss ∧ List.Forall₂ SectionText.Gives ss ts) ∧
      (¬AllAccepted (stripped text) → parse (bytes text) = .error .error)) ↔
    AllAccepted (stripped text) := by
  constructor
  · rintro ⟨-, herror⟩
    by_contra h
    have hparse := herror h
    rw [parse_bytes] at hparse
    rcases many0_cases (solid_stripped text) with ⟨out, hout⟩ | ⟨⟨msg, hmsg⟩, -⟩
    · rw [hout] at hparse
      cases hparse
    · rw [hmsg] at hparse
      cases hparse
  · rintro ⟨ss, htext, hss⟩
    obtain ⟨us, hus⟩ := exists_gives hss
    refine ⟨fun ts hts => ?_, fun h => absurd ⟨ss, htext, hss⟩ h⟩
    rw [parse_of_gives htext hus] at hts
    cases hts
    exact ⟨ss, htext, hus⟩

/-- A text that is no section at all is read as no sections. -/
theorem garbage_parsed :
    parse (bytes "garbage") = .ok [] ∧ ¬AllAccepted (stripped "garbage") := by
  have hstripped : stripped "garbage" = ['g', 'a', 'r', 'b', 'a', 'g', 'e'] := by decide
  constructor
  · have hnone : NoSection ['g', 'a', 'r', 'b', 'a', 'g', 'e'] := fun s rest h => by
      cases (List.cons.inj h).1
    rw [parse_bytes, hstripped, many0_of_error (parseSection_of_noSection (by decide) hnone)]
  · rintro ⟨ss, h, -⟩
    rw [hstripped] at h
    cases ss with
    | nil => cases h
    | cons s ss => cases (List.cons.inj h).1

theorem panics_parse {text : String} (ss : List SectionText) (s : SectionText) (rest : Rest)
    (htext : stripped text = printAll ss ++ (s.text ++ rest.text)) (hss : ∀ x ∈ ss, x.Accepted)
    (hs : s.Panicking) : Panics (parse (bytes text)) := by
  obtain ⟨ts, hts⟩ := exists_gives hss
  obtain ⟨msg, hmsg⟩ := (panics_sectionOf s.name s.properties).mpr hs
  have hread : parseSection (utf8 (s.text ++ rest.text)) = .error (.panics msg) := by
    rw [parseSection_text s rest.solid rest.stops,
      show sectionOf s.name s.pairs = .error (.panics msg) from hmsg]
    rfl
  rw [parse_bytes, htext, many0_sections hts (s.solid.append rest.solid) fun _ =>
    stops_section s rest.text, many0_of_panics hread]
  exact panics_panics msg

/-- **The parser panics** exactly if a section panics that stands behind accepted ones. -/
theorem parse_panics_iff (text : String) :
    ¬Panics (parse (bytes text)) ↔
      ¬∃ (ss : List SectionText) (s : SectionText) (rest : Rest),
        stripped text = printAll ss ++ (s.text ++ rest.text) ∧ (∀ x ∈ ss, x.Accepted) ∧
          s.Panicking := by
  refine not_congr ⟨fun h => ?_, fun ⟨ss, s, rest, htext, hss, hs⟩ =>
    panics_parse ss s rest htext hss hs⟩
  rcases many0_cases (solid_stripped text) with ⟨out, hout⟩ | ⟨-, hwhere⟩
  · rw [parse_bytes, hout] at h
    exact absurd h (not_panics_ok _)
  · exact hwhere

/-- A runtime without dependencies panics. -/
theorem runtime_panics : Panics (parse (bytes "[runtime]")) :=
  panics_parse [] (runtimeText []) noRest (by decide) (fun x hx => absurd hx List.not_mem_nil)
    (.inr ⟨by decide, .inl rfl⟩)

end Jxtd.Engug.Edc
