import Jxtd.Engug.EdcParser

/-!
# The text of EDC files

A section is written as `[name]key=value;...`. The parsers find the ends of its parts by single
bytes, so they read a section that has been written, whatever follows, as far as nothing that
follows is one more property.

* `Property`, `SectionText`: what can be written; `text`: how it is written.
* `parseProperty_text`, `parseProperty_of_stops`: a property is read exactly where one is written.
* **`parseSection_text`**, `parseSection_of_noSection`: so is a section.
* `exists_split`: every text without whitespace begins with a section or with none.
-/

namespace Jxtd.Engug.Edc

open Lib

/-! ## What can be written -/

/-- Text without whitespace. -/
def Solid (cs : List Char) : Prop := ∀ c ∈ cs, isWhitespace c = false

instance (cs : List Char) : Decidable (Solid cs) := List.decidableBAll _ cs

structure Property where
  key : String
  value : String
  key_solid : Solid key.toList
  key_clean : '=' ∉ key.toList
  key_start : key.toList.head? ≠ some '['
  value_solid : Solid value.toList
  value_clean : ';' ∉ value.toList
  value_ne : value.toList ≠ []

structure SectionText where
  name : String
  properties : List Property
  name_solid : Solid name.toList
  name_clean : ']' ∉ name.toList
  name_ne : name.toList ≠ []

def Property.pair (p : Property) : String × String := (p.key, p.value)

def Property.text (p : Property) : List Char :=
  p.key.toList ++ '=' :: (p.value.toList ++ [';'])

def SectionText.pairs (s : SectionText) : List (String × String) := s.properties.map Property.pair

def SectionText.text (s : SectionText) : List Char :=
  '[' :: (s.name.toList ++ ']' :: s.properties.flatMap Property.text)

/-- Sections one after the other. -/
def printAll (ss : List SectionText) : List Char := ss.flatMap SectionText.text

/-- No property is written at the beginning. -/
def Stops (cs : List Char) : Prop := ∀ (p : Property) (rest : List Char), cs ≠ p.text ++ rest

/-- No section is written at the beginning. -/
def NoSection (cs : List Char) : Prop := ∀ (s : SectionText) (rest : List Char), cs ≠ s.text ++ rest

theorem Solid.append {cs ds : List Char} (hc : Solid cs) (hd : Solid ds) : Solid (cs ++ ds) := by
  intro c h
  rcases List.mem_append.mp h with h | h
  · exact hc c h
  · exact hd c h

theorem Solid.left {cs ds : List Char} (h : Solid (cs ++ ds)) : Solid cs :=
  fun c hc => h c (List.mem_append_left ds hc)

theorem Solid.right {cs ds : List Char} (h : Solid (cs ++ ds)) : Solid ds :=
  fun c hc => h c (List.mem_append_right cs hc)

theorem Solid.tail {c : Char} {cs : List Char} (h : Solid (c :: cs)) : Solid cs :=
  fun d hd => h d (List.mem_cons_of_mem c hd)

theorem Solid.cons {c : Char} {cs : List Char} (hc : isWhitespace c = false) (h : Solid cs) :
    Solid (c :: cs) :=
  List.forall_mem_cons.mpr ⟨hc, h⟩

theorem solid_nil : Solid [] := fun _ h => absurd h List.not_mem_nil

theorem Property.solid (p : Property) : Solid p.text :=
  p.key_solid.append ((p.value_solid.append (solid_nil.cons (by decide))).cons (by decide))

theorem solid_properties (ps : List Property) : Solid (ps.flatMap Property.text) := by
  intro c hc
  obtain ⟨p, -, hp⟩ := List.mem_flatMap.mp hc
  exact p.solid c hp

theorem SectionText.solid (s : SectionText) : Solid s.text :=
  (s.name_solid.append ((solid_properties s.properties).cons (by decide))).cons (by decide)

theorem solid_printAll (ss : List SectionText) : Solid (printAll ss) := by
  intro c hc
  obtain ⟨s, -, hs⟩ := List.mem_flatMap.mp hc
  exact s.solid c hs

/-! ## Where a property stops -/

theorem stops_nil : Stops [] := by
  intro p rest h
  have hlen := congrArg List.length h
  simp only [Property.text, List.length_append, List.length_cons, List.length_nil] at hlen
  omega

theorem stops_bracket (cs : List Char) : Stops ('[' :: cs) := by
  intro p rest h
  cases hk : p.key.toList with
  | nil =>
    rw [Property.text, hk] at h
    cases h
  | cons c key =>
    rw [Property.text, hk] at h
    refine p.key_start ?_
    rw [hk, List.head?_cons, ← (List.cons.inj h).1]

theorem stops_section (s : SectionText) (rest : List Char) : Stops (s.text ++ rest) :=
  stops_bracket _

/-! ## Single parsers on text -/

/-- The byte of an ASCII character. -/
theorem utf8_ascii_cons {c : Char} (h : c.toNat < 128) (cs : List Char) :
    utf8 (c :: cs) = c.toNat.toUInt8 :: utf8 cs := by
  rw [utf8_cons, encode_ascii h]
  rfl

theorem space0_utf8 {cs : List Char} (h : Solid cs) : space0 (utf8 cs) = .ok (utf8 cs, []) := by
  refine space0_of_notMem fun b hb hhead => ?_
  have hlit : lit " \t" = [0x20, 0x9] := rfl
  rw [hlit, List.mem_cons, List.mem_singleton] at hb
  have hlt : b.toNat < 128 := by
    rcases hb with rfl | rfl <;> decide
  obtain ⟨c, cs', rfl, hc⟩ := head_of_utf8 hlt hhead
  have hws := h c List.mem_cons_self
  rcases hb with rfl | rfl
  · have h20 : c.toNat = 0x20 := hc
    simp [isWhitespace, h20] at hws
  · have h9 : c.toNat = 9 := hc
    simp [isWhitespace, h9] at hws

theorem char_eq_of_toNat {c d : Char} (h : c.toNat = d.toNat) : c = d :=
  Char.ext (UInt32.toNat_inj.mp h)

theorem byte_notMem {c : Char} (h : c.toNat < 128) {cs : List Char} (hc : c ∉ cs) :
    c.toNat.toUInt8 ∉ utf8 cs := by
  have hb : c.toNat.toUInt8.toNat = c.toNat := toNat_toUInt8_of_lt (by omega)
  refine notMem_utf8 (by omega) fun d hd heq => hc ?_
  rwa [← char_eq_of_toNat (heq.trans hb)]

theorem trimChars_of_solid {cs : List Char} (h : Solid cs) : trimChars cs = cs := by
  have hdrop {ds : List Char} (hd : Solid ds) : ds.dropWhile isWhitespace = ds := by
    cases ds with
    | nil => rfl
    | cons d ds =>
      exact List.dropWhile_cons_of_neg (by rw [hd d List.mem_cons_self]; exact Bool.false_ne_true)
  have hrev : Solid cs.reverse := fun c hc => h c (List.mem_reverse.mp hc)
  rw [trimChars, hdrop h, hdrop hrev, List.reverse_reverse]

theorem trim_of_solid {s : String} (h : Solid s.toList) : trim s = s := by
  rw [trim, trimChars_of_solid h, String.ofList_toList]

theorem fromUtf8_toList (s : String) : fromUtf8 (utf8 s.toList) = some s := by
  rw [fromUtf8_utf8, String.ofList_toList]

/-! ## Properties -/

theorem consumes_parseProperty : Consumes parseProperty := by
  intro input rest a h
  obtain ⟨⟨i₁, x₁⟩, h₁, h⟩ := bind_eq_ok.mp h
  dsimp only at h
  split_ifs at h
  obtain ⟨⟨i₂, x₂⟩, h₂, h⟩ := bind_eq_ok.mp h
  obtain ⟨⟨i₃, x₃⟩, h₃, h⟩ := bind_eq_ok.mp h
  obtain ⟨⟨i₄, x₄⟩, h₄, h⟩ := bind_eq_ok.mp h
  obtain ⟨⟨i₅, x₅⟩, h₅, h⟩ := bind_eq_ok.mp h
  obtain ⟨x₆, -, h⟩ := bind_eq_ok.mp h
  obtain ⟨x₇, -, h⟩ := bind_eq_ok.mp h
  cases h
  have hspace := length_of_space0 h₁
  obtain ⟨r, rfl, rfl, -⟩ := takeUntil_eq_ok h₂
  have hequals := congrArg List.length (tag_eq_ok h₃).1
  have hvalue := congrArg List.length (isNot_eq_ok h₄).1
  have hsemicolon := congrArg List.length (tag_eq_ok h₅).1
  simp only [List.length_append, List.length_cons] at hspace hequals hvalue hsemicolon
  show i₅.length < input.length
  have hone : (lit "=").length = 1 := rfl
  omega

/-- **A property that is written is read.** -/
theorem parseProperty_text (p : Property) {rest : List Char} (hrest : Solid rest) :
    parseProperty (utf8 (p.text ++ rest)) = .ok (utf8 rest, p.pair) := by
  have hsplit : utf8 (p.text ++ rest) =
      utf8 p.key.toList ++ 0x3d :: (utf8 p.value.toList ++ 0x3b :: utf8 rest) := by
    simp only [Property.text, List.append_assoc, List.cons_append, List.nil_append, utf8_append,
      utf8_ascii_cons (show ('=' : Char).toNat < 128 by decide),
      utf8_ascii_cons (show (';' : Char).toNat < 128 by decide)]
    rfl
  have hhead : (utf8 (p.text ++ rest)).head? ≠ some 0x5b := by
    intro h
    obtain ⟨c, cs, hcs, hc⟩ := head_of_utf8 (by decide) h
    rw [char_eq_of_toNat (d := '[') hc] at hcs
    exact stops_bracket cs p rest hcs.symm
  have hkey : (0x3d : UInt8) ∉ utf8 p.key.toList := byte_notMem (c := '=') (by decide) p.key_clean
  have hvalue : ∀ b ∈ utf8 p.value.toList, b ∉ lit ";" := by
    intro b hb hmem
    rw [List.mem_singleton.mp hmem] at hb
    exact byte_notMem (c := ';') (by decide) p.value_clean hb
  have htag (t : UInt8) (bs : Str) : tag [t] (t :: bs) = .ok (bs, [t]) := tag_append [t] bs
  rw [parseProperty, space0_utf8 (p.solid.append hrest), ok_bind]
  dsimp only
  rw [if_neg hhead, hsplit, show lit "=" = [0x3d] from rfl, takeUntil_append hkey, ok_bind]
  dsimp only
  rw [htag, ok_bind]
  dsimp only
  rw [isNot_append (utf8_ne_nil p.value_ne) hvalue (by decide), ok_bind]
  dsimp only
  rw [show lit ";" = [0x3b] from rfl, htag, ok_bind]
  dsimp only
  rw [fromUtf8_toList, fromUtf8_toList]
  simp only [unwrapResult, ok_bind, pure_eq_ok, trim_of_solid p.key_solid,
    trim_of_solid p.value_solid]
  rfl

theorem not_stops {key value rest : List Char}
    (hsolid : Solid (key ++ '=' :: (value ++ ';' :: rest)))
    (hkey : '=' ∉ key) (hstart : key.head? ≠ some '[') (hvalue : ';' ∉ value) (hne : value ≠ []) :
    ¬Stops (key ++ '=' :: (value ++ ';' :: rest)) := by
  intro h
  refine h ⟨String.ofList key, String.ofList value, ?_, ?_, ?_, ?_, ?_, ?_⟩ rest ?_
  all_goals simp only [Property.text, String.toList_ofList]
  · exact hsolid.left
  · exact hkey
  · exact hstart
  · exact hsolid.right.tail.left
  · exact hvalue
  · exact hne
  · simp

/-- **Where no property is written none is read.** -/
theorem parseProperty_of_stops {cs : List Char} (hcs : Solid cs) (h : Stops cs) :
    parseProperty (utf8 cs) = .error .error := by
  have hequals : lit "=" = [0x3d] := rfl
  have hsemicolon : lit ";" = [0x3b] := rfl
  rw [parseProperty, space0_utf8 hcs, ok_bind]
  dsimp only
  by_cases hhead : (utf8 cs).head? = some 0x5b
  · rw [if_pos hhead]
  rw [if_neg hhead, hequals, hsemicolon]
  cases hkey : takeUntil [0x3d] (utf8 cs) with
  | error e =>
    -- no `=` in the text
    unfold takeUntil at hkey
    split at hkey
    · cases hkey
      rfl
    · cases hkey
  | ok out =>
    obtain ⟨after, key⟩ := out
    obtain ⟨after, rfl, htext, hmem⟩ := takeUntil_eq_ok hkey
    obtain ⟨kcs, c, vcs, rfl, rfl, hc, rfl⟩ := utf8_split (by decide) htext
    obtain rfl : c = '=' := char_eq_of_toNat hc
    rw [ok_bind]
    dsimp only
    rw [show (0x3d :: utf8 vcs) = [0x3d] ++ utf8 vcs from rfl, tag_append, ok_bind]
    dsimp only
    cases hvalue : isNot [0x3b] (utf8 vcs) with
    | error e =>
      -- an empty value
      unfold isNot at hvalue
      split_ifs at hvalue
      cases hvalue
      rfl
    | ok out =>
      obtain ⟨after, value⟩ := out
      obtain ⟨htext', hne, hclean, hstop⟩ := isNot_eq_ok hvalue
      rw [ok_bind]
      dsimp only
      cases after with
      | nil => rfl
      | cons b after =>
        obtain rfl : b = 0x3b := List.mem_singleton.mp (hstop b rfl)
        obtain ⟨cs₁, d, cs₂, rfl, rfl, hd, rfl⟩ := utf8_split (by decide) htext'
        obtain rfl : d = ';' := char_eq_of_toNat hd
        refine absurd h (not_stops hcs ?_ ?_ ?_ ?_)
        · exact fun hc => hmem ((mem_utf8 (b := 0x3d) (by decide)).mpr ⟨_, hc, rfl⟩)
        · intro hstart
          obtain ⟨kcs, rfl⟩ := List.head?_eq_some_iff.mp hstart
          exact hhead (by rw [List.cons_append, utf8_ascii_cons (by decide)]; rfl)
        · intro hc
          exact hclean 0x3b ((mem_utf8 (by decide)).mpr ⟨_, hc, rfl⟩) (by decide)
        · rintro rfl
          exact hne rfl

/-- **Properties are read up to where they stop.** -/
theorem many0_properties (ps : List Property) {rest : List Char} (hrest : Solid rest)
    (h : Stops rest) :
    many0 parseProperty (utf8 (ps.flatMap Property.text ++ rest)) =
      .ok (utf8 rest, ps.map Property.pair) := by
  induction ps with
  | nil => exact many0_of_error (parseProperty_of_stops hrest h)
  | cons p ps ih =>
    have hsolid : Solid (ps.flatMap Property.text ++ rest) := (solid_properties ps).append hrest
    rw [List.flatMap_cons, List.append_assoc,
      many0_of_ok consumes_parseProperty (parseProperty_text p hsolid), ih]
    rfl

/-! ## Sections -/

theorem parseSectionName_text {name rest : List Char} (hname : Solid name) (hclean : ']' ∉ name)
    (hne : name ≠ []) (hrest : Solid rest) :
    parseSectionName (utf8 ('[' :: (name ++ ']' :: rest))) =
      .ok (utf8 rest, String.ofList name) := by
  have hsolid : Solid ('[' :: (name ++ ']' :: rest)) :=
    (hname.append (hrest.cons (by decide))).cons (by decide)
  have hsplit : utf8 ('[' :: (name ++ ']' :: rest)) = 0x5b :: (utf8 name ++ 0x5d :: utf8 rest) := by
    rw [utf8_ascii_cons (by decide), utf8_append, utf8_ascii_cons (by decide)]
    rfl
  have hbytes : ∀ b ∈ utf8 name, b ∉ lit "]\n" := by
    intro b hb hmem
    have hlit : lit "]\n" = [0x5d, 0xa] := rfl
    rw [hlit, List.mem_cons, List.mem_singleton] at hmem
    rcases hmem with rfl | rfl
    · exact byte_notMem (c := ']') (by decide) hclean hb
    · refine byte_notMem (c := '\n') (by decide) (fun hc => ?_) hb
      exact absurd (hname _ hc) (by decide)
  have htag (t : UInt8) (bs : Str) : tag [t] (t :: bs) = .ok (bs, [t]) := tag_append [t] bs
  rw [parseSectionName, space0_utf8 hsolid, ok_bind]
  dsimp only
  rw [hsplit, show lit "[" = [0x5b] from rfl, htag, ok_bind]
  dsimp only
  rw [isNot_append (utf8_ne_nil hne) hbytes (by decide), ok_bind]
  dsimp only
  rw [show lit "]" = [0x5d] from rfl, htag, ok_bind]
  dsimp only
  rw [fromUtf8_utf8]
  rfl

/-- **A section that is written is read**: its properties are typed and checked. -/
theorem parseSection_text (s : SectionText) {rest : List Char} (hrest : Solid rest)
    (h : Stops rest) :
    parseSection (utf8 (s.text ++ rest)) =
      (sectionOf s.name s.pairs).map fun t => (utf8 rest, t) := by
  have hsolid : Solid (s.properties.flatMap Property.text ++ rest) :=
    (solid_properties s.properties).append hrest
  rw [parseSection, SectionText.text, List.cons_append, List.append_assoc, List.cons_append,
    parseSectionName_text s.name_solid s.name_clean s.name_ne hsolid, ok_bind]
  dsimp only
  rw [many0_properties s.properties hrest h, ok_bind, String.ofList_toList]
  dsimp only
  rw [← SectionText.pairs]
  cases sectionOf s.name s.pairs with
  | error e => rfl
  | ok t => rfl

/-- **Every text begins with properties** and goes on where they stop. -/
theorem exists_properties {cs : List Char} (hcs : Solid cs) :
    ∃ (ps : List Property) (rest : List Char), cs = ps.flatMap Property.text ++ rest ∧ Stops rest := by
  by_cases h : Stops cs
  · exact ⟨[], cs, rfl, h⟩
  · unfold Stops at h
    push Not at h
    obtain ⟨p, rest, rfl⟩ := h
    have hlt : rest.length < (p.text ++ rest).length := by
      simp only [Property.text, List.length_append, List.length_cons]
      omega
    obtain ⟨ps, rest', rfl, hstop⟩ := exists_properties hcs.right
    exact ⟨p :: ps, rest', by rw [List.flatMap_cons, List.append_assoc], hstop⟩
termination_by cs.length

theorem not_noSection {name rest : List Char} (hsolid : Solid ('[' :: (name ++ ']' :: rest)))
    (hclean : ']' ∉ name) (hne : name ≠ []) : ¬NoSection ('[' :: (name ++ ']' :: rest)) := by
  intro h
  refine h ⟨String.ofList name, [], ?_, ?_, ?_⟩ rest ?_
  all_goals simp only [SectionText.text, String.toList_ofList]
  · exact hsolid.tail.left
  · exact hclean
  · exact hne
  · simp

/-- **A text begins with no section or with a whole one**, with all of its properties. -/
theorem exists_split {cs : List Char} (hcs : Solid cs) (h : ¬NoSection cs) :
    ∃ (s : SectionText) (rest : List Char), cs = s.text ++ rest ∧ Stops rest := by
  unfold NoSection at h
  push Not at h
  obtain ⟨s, rest, rfl⟩ := h
  obtain ⟨ps, rest', rfl, hstop⟩ := exists_properties hcs.right
  refine ⟨{ s with properties := s.properties ++ ps }, rest', ?_, hstop⟩
  simp [SectionText.text]

/-- **Where no section is written none is read.** -/
theorem parseSection_of_noSection {cs : List Char} (hcs : Solid cs) (h : NoSection cs) :
    parseSection (utf8 cs) = .error .error := by
  have hopen : lit "[" = [0x5b] := rfl
  have hclose : lit "]" = [0x5d] := rfl
  have hstops : lit "]\n" = [0x5d, 0xa] := rfl
  have hname : parseSectionName (utf8 cs) = .error .error := by
    rw [parseSectionName, space0_utf8 hcs, ok_bind, hopen, hclose, hstops]
    dsimp only
    cases htag : tag [0x5b] (utf8 cs) with
    | error e =>
      unfold tag at htag
      split_ifs at htag
      cases htag
      rfl
    | ok out =>
      obtain ⟨input, out⟩ := out
      obtain ⟨htext, rfl⟩ := tag_eq_ok htag
      obtain ⟨cs₀, c, after, rfl, hnil, hc, rfl⟩ := utf8_split (a := []) (by decide) htext
      obtain rfl : cs₀ = [] := by
        by_contra hne
        exact utf8_ne_nil hne hnil.symm
      obtain rfl : c = '[' := char_eq_of_toNat hc
      rw [ok_bind]
      dsimp only
      cases hname : isNot [0x5d, 0xa] (utf8 after) with
      | error e =>
        unfold isNot at hname
        split_ifs at hname
        cases hname
        rfl
      | ok out =>
        obtain ⟨rest, name⟩ := out
        obtain ⟨htext', hne, hclean, hstop⟩ := isNot_eq_ok hname
        rw [ok_bind]
        dsimp only
        cases rest with
        | nil => rfl
        | cons b rest =>
          have hb := hstop b rfl
          rw [List.mem_cons, List.mem_singleton] at hb
          obtain ⟨cs₁, d, cs₂, rfl, rfl, hd, rfl⟩ :=
            utf8_split (by rcases hb with rfl | rfl <;> decide) htext'
          rcases hb with rfl | rfl
          · obtain rfl : d = ']' := char_eq_of_toNat hd
            refine absurd h (not_noSection hcs ?_ ?_)
            · intro hc
              exact hclean 0x5d ((mem_utf8 (by decide)).mpr ⟨_, hc, rfl⟩) (by decide)
            · rintro rfl
              exact hne rfl
          · -- no newline is left in the text
            obtain rfl : d = '\n' := char_eq_of_toNat hd
            exact absurd (hcs.tail.right _ List.mem_cons_self) (by decide)
  rw [parseSection, hname]
  rfl

theorem consumes_parseSection : Consumes parseSection := by
  intro input rest a h
  obtain ⟨⟨i₁, name⟩, hname, h⟩ := bind_eq_ok.mp h
  obtain ⟨⟨i₂, properties⟩, hproperties, h⟩ := bind_eq_ok.mp h
  obtain ⟨s, -, h⟩ := bind_eq_ok.mp h
  cases h
  obtain ⟨⟨j₁, x₁⟩, h₁, hname⟩ := bind_eq_ok.mp hname
  obtain ⟨⟨j₂, x₂⟩, h₂, hname⟩ := bind_eq_ok.mp hname
  obtain ⟨⟨j₃, x₃⟩, h₃, hname⟩ := bind_eq_ok.mp hname
  obtain ⟨⟨j₄, x₄⟩, h₄, hname⟩ := bind_eq_ok.mp hname
  obtain ⟨x₅, -, hname⟩ := bind_eq_ok.mp hname
  cases hname
  have hspace := length_of_space0 h₁
  have hopen := congrArg List.length (tag_eq_ok h₂).1
  have hbytes := congrArg List.length (isNot_eq_ok h₃).1
  have hclose := congrArg List.length (tag_eq_ok h₄).1
  have hle := length_of_many0 consumes_parseProperty hproperties
  simp only [List.length_append] at hspace hopen hbytes hclose
  show rest.length < input.length
  have hone : (lit "[").length = 1 := rfl
  omega

end Jxtd.Engug.Edc
