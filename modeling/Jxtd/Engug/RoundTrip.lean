import Jxtd.Engug.EdtParser
import Jxtd.Engug.Layout

/-!
# Does a written file parse back?

The writer gives the number of sections in one byte (two equal ones in a big-endian file), the
parser reads it from eight. So the parser reads the table shifted by seven or six bytes: its first
bytes become the high bytes of the number, and a section's type is read in the middle of an offset.

* `entry_shape`: every entry of a written table.
* `littleEndian_never`, `bigEndian_never`: what follows for the sections that are read.
* **`edt_never_parses_back`**: no list of sections comes back.
-/

namespace Jxtd.Engug

open Lib

/-! ## The written table -/

/-- The entry of a section: its name, a type that is `0` or `1`, the offset and twelve more bytes. -/
theorem sectionEntry_shape (be : Bool) (info : SectionInfo) (offset : ℕ) :
    ∃ (type : UInt8) (tail : Str), type.toNat ≤ 1 ∧ tail.length = 12 ∧
      sectionEntry be info offset =
        padName info.name ++ ([type] ++ (numBytes be 8 offset ++ tail)) := by
  refine ⟨if info.name = lit "meta" then 0 else 1, numBytes be 8 info.size ++ numBytes be 4 info.count,
    ?_, ?_, ?_⟩
  · split_ifs <;> decide
  · simp
  · simp only [sectionEntry, List.append_assoc]

/-- Every entry holds 17 bytes of name, the type, the offset, and twelve more bytes. -/
theorem entry_shape {be : Bool} {infos : List SectionInfo} {t d : ℕ}
    (h : ∀ info ∈ infos, info.name.length ≤ 17) :
    ∀ e ∈ layout be infos t d, ∃ name type offset tail, name.length = 17 ∧ tail.length = 12 ∧
      offset ≤ t + (infos.map SectionInfo.size).sum ∧
      e = name ++ ([type] ++ (numBytes be 8 offset ++ tail)) := by
  induction infos generalizing t d with
  | nil =>
    intro e he
    rw [List.mem_singleton.mp he]
    refine ⟨padName (lit "data"), 2, t, numBytes be 8 d ++ beBytes 4 0, rfl, ?_, by simp, ?_⟩
    · simp
    · simp only [dataEntry, List.append_assoc]
  | cons info infos ih =>
    intro e he
    rcases List.mem_cons.mp he with rfl | he
    · obtain ⟨type, tail, -, htail, heq⟩ := sectionEntry_shape be info t
      refine ⟨padName info.name, type, t, tail, ?_, htail, by omega, heq⟩
      rw [length_padName, Nat.max_eq_left (h info List.mem_cons_self)]
    · obtain ⟨name, type, offset, tail, hn, ht, ho, rfl⟩ :=
        ih (fun i hi => h i (List.mem_cons_of_mem _ hi)) e he
      refine ⟨name, type, offset, tail, hn, ht, ?_, rfl⟩
      rw [List.map_cons, List.sum_cons]
      omega

theorem sum_size_le {p : Profile} {sections : List EdtSection} {infos : List SectionInfo}
    (h : List.Forall₂ (fun s i => scanSection p s = .ok i) sections infos) :
    (infos.map SectionInfo.size).sum ≤ 2 * (sections.map EdtSection.emitted).sum := by
  induction h with
  | nil => exact Nat.le_refl 0
  | @cons s info _ _ hs _ ih =>
    have h1 := (scanSection_eq hs).2.1
    have h2 := predicted_le s.values
    rw [List.map_cons, List.sum_cons, List.map_cons, List.sum_cons]
    simp only [EdtSection.predicted, EdtSection.emitted] at h1 h2 ⊢
    omega

/-! ## Little-endian files -/

/-- Byte 6 of an offset is zero. -/
theorem field_little {name tail : Str} {type : UInt8} {offset : ℕ} (hn : name.length = 17)
    (ho : offset < 2 ^ 48) :
    field (name ++ ([type] ++ (numBytes false 8 offset ++ tail))) 24 1 = [0] := by
  have hz : leBytes 2 (offset / 256 ^ 6) = [0, 0] := by
    have h0 : offset / 256 ^ 6 = 0 := Nat.div_eq_of_lt (by omega)
    rw [h0]
    rfl
  have hs : numBytes false 8 offset = leBytes 6 offset ++ ([0] ++ [0]) := by
    have h8 : leBytes (6 + 2) offset = _ := leBytes_add 6 2 offset
    rw [hz] at h8
    exact h8
  rw [hs, List.append_assoc, List.append_assoc, ← List.append_assoc [type],
    ← List.append_assoc name]
  exact field_append (by simp [hn]) rfl _

/-- **A little-endian file**: the types that are read in the table are zero as far as it goes, so
that there is either no entry of the strings or one section too many. -/
theorem littleEndian_never {p : Profile} {nums : ℕ} {infos : List SectionInfo} {t d : ℕ}
    {k : UInt8} {more : Str} {result : List Section}
    (hnames : ∀ info ∈ infos, info.name.length ≤ 17)
    (hoff : t + (infos.map SectionInfo.size).sum < 2 ^ 48)
    (h : parse p (writeHeader false nums ++ ([k] ++ ((layout false infos t d).flatten ++ more))) =
      .ok result) : infos.length < result.length := by
  obtain ⟨-, entries, description, hlen, -, hget, hfind, -, hresult⟩ := parse_written h
  have hblocks : ∀ e ∈ layout false infos t d, e.length = 38 := length_of_mem_layout hnames
  -- the first entries that are read are no entries of the strings
  have htype : ∀ i, i ≤ infos.length → ∀ x, entries[i]? = some x → isDataEntry x = false := by
    intro i hi x hx
    have hi' : i < (layout false infos t d).length := by rw [length_layout]; omega
    obtain ⟨name, type, offset, tail, hn, -, ho, he⟩ :=
      entry_shape hnames _ (List.getElem_mem hi')
    have hdrop := drop_flatten_of_forall hblocks (List.getElem?_eq_getElem hi') more
    rw [hget i (List.getElem?_eq_some_iff.mp hx).1, Option.some.injEq] at hx
    have hfield : x.sectionType = [0] := by
      rw [← hx]
      have hd : ([k] ++ ((layout false infos t d).flatten ++ more)).drop (8 + 38 * i) =
          (((layout false infos t d).flatten ++ more).drop (38 * i)).drop 7 := by
        rw [List.drop_drop, List.singleton_append, show 8 + 38 * i = 38 * i + 7 + 1 by omega,
          List.drop_succ_cons]
      simp only [entryAt]
      have h25 : 7 + 17 + 1 ≤ (layout false infos t d)[i].length := by
        rw [hblocks _ (List.getElem_mem hi')]
        omega
      rw [hd, hdrop, field_drop, field_append_left h25, he]
      exact field_little hn (by omega)
    rw [isDataEntry, hfield]
    rfl
  have hlong : infos.length + 1 < entries.length := by
    by_contra hshort
    obtain ⟨i, hi, rfl⟩ := List.mem_iff_getElem.mp (List.mem_of_find?_eq_some hfind)
    have := htype i (by omega) _ (List.getElem?_eq_getElem hi)
    rw [List.find?_some hfind] at this
    cases this
  have htake : (entries.take (infos.length + 1)).filter (fun i => !isDataEntry i) =
      entries.take (infos.length + 1) := by
    rw [List.filter_eq_self]
    intro x hx
    obtain ⟨i, hi, rfl⟩ := List.mem_iff_getElem.mp hx
    rw [List.length_take] at hi
    rw [List.getElem_take, htype i (by omega) _ (List.getElem?_eq_getElem (by omega))]
    rfl
  rw [← hresult.length_eq, ← List.take_append_drop (infos.length + 1) entries, List.filter_append,
    htake, List.length_append, List.length_take]
  omega

/-! ## Big-endian files -/

/-- A name of 17 bytes that is read again six bytes later begins with the high bytes of the offset
and with the type. -/
theorem shifted_name {name offset tail : Str} {type : UInt8} (hn : name.length = 17)
    (ho : offset.length = 8) (h : name = field (name ++ ([type] ++ (offset ++ tail))) 6 17) :
    name.take 6 = offset.take 5 ++ [type] := by
  obtain ⟨x, hx⟩ : ∃ x, x = [type] ++ offset.take 5 := ⟨_, rfl⟩
  have h₁ : name = name.drop 6 ++ x := by
    have hl : (name.drop 6).length = 11 := by rw [List.length_drop, hn]
    have ht : ([type] ++ (offset ++ tail)).take 6 = x := by
      rw [List.singleton_append, List.take_succ_cons, List.take_append_of_le_length (by omega), hx,
        List.singleton_append]
    conv_lhs => rw [h]
    rw [field, List.drop_append_of_le_length (by omega), List.take_append, hl,
      List.take_of_length_le (by omega), ht]
  have h₂ : name.drop 6 = name.drop 12 ++ x := by
    conv_lhs => rw [h₁]
    rw [List.drop_append_of_le_length (by rw [List.length_drop]; omega), List.drop_drop]
  have h₃ : name.drop 12 = offset.take 5 := by
    have hl : (name.drop 12).length = 5 := by rw [List.length_drop, hn]
    have h' : (name.drop 6).drop 6 = x.drop 1 := by
      rw [h₂, List.drop_append, hl, List.drop_eq_nil_of_le (by omega), List.nil_append]
    rw [List.drop_drop, hx] at h'
    exact h'
  have hl : (offset.take 5).length = 5 := by rw [List.length_take, ho]; rfl
  rw [h₁, h₂, h₃, hx, List.append_assoc, List.take_append, hl, List.take_of_length_le (by omega)]
  rfl

/-- A number of eight bytes that is not huge begins with a zero byte. -/
theorem first_byte_zero {rest : Str} {k : UInt8} (hhead : rest.head? = some k)
    (hlen : 8 ≤ rest.length) (hsmall : beVal (rest.take 8) < 256 ^ 7) : k.toNat = 0 := by
  by_contra hk
  obtain ⟨tail, rfl⟩ := List.head?_eq_some_iff.mp hhead
  have hl : (tail.take 7).length = 7 := by
    rw [List.length_cons] at hlen
    rw [List.length_take]
    omega
  have hbig : 256 ^ 7 ≤ 256 ^ 7 * k.toNat :=
    Nat.le_mul_of_pos_right _ (Nat.pos_of_ne_zero hk)
  rw [List.take_succ_cons, beVal_cons, hl] at hsmall
  omega

/-- What is read as the offset of the first entry: the two low bytes of its offset come first. -/
theorem shifted_offset {name tail : Str} (type : UInt8) (offset : ℕ) (hn : name.length = 17)
    (ht : tail.length = 12) :
    256 ^ 6 * (offset % 256 ^ 2) ≤
      beVal (field (name ++ ([type] ++ (beBytes 8 offset ++ tail))) 24 8) := by
  have h8 : beBytes (6 + 2) offset = _ := beBytes_add 6 2 offset
  have he : name ++ ([type] ++ (beBytes 8 offset ++ tail)) =
      (name ++ ([type] ++ beBytes 6 (offset / 256 ^ 2))) ++
        ((beBytes 2 offset ++ tail.take 6) ++ tail.drop 6) := by
    rw [h8]
    simp only [List.append_assoc, List.take_append_drop]
  have htl : (tail.take 6).length = 6 := by rw [List.length_take, ht]; rfl
  rw [he, field_append (by simp [hn]) (by simp [htl]), beVal_append, htl, beVal_beBytes]
  exact Nat.le_add_right _ _

/-- The number of entries that is read when the first name is shifted. -/
theorem shifted_count {name tail x : Str} {type : UInt8} {offset : ℕ} (hn : name.length = 17)
    (h : name = field (name ++ ([type] ++ (beBytes 8 offset ++ tail))) 6 17) :
    beVal (([0, 0] ++ (name ++ x)).take 8) ≤ 256 * (offset / 256 ^ 3) + type.toNat := by
  have htake : ([0, 0] ++ (name ++ x)).take 8 = [0, 0] ++ name.take 6 := by
    rw [List.cons_append, List.singleton_append, List.take_succ_cons, List.take_succ_cons,
      List.take_append_of_le_length (by omega)]
    rfl
  have h8 : beBytes (5 + 3) offset = _ := beBytes_add 5 3 offset
  have hoff : (beBytes 8 offset).take 5 = beBytes 5 (offset / 256 ^ 3) := by
    rw [h8, List.take_left' (length_beBytes 5 _)]
  have hz : beVal [0, 0] = 0 := rfl
  have hty : beVal [type] = type.toNat := by simp [beVal, leVal]
  rw [htake, shifted_name hn (length_beBytes 8 offset) h, hoff, beVal_append, beVal_append,
    beVal_beBytes, hz, hty, List.length_singleton]
  have := Nat.mod_le (offset / 256 ^ 3) (256 ^ 5)
  omega

/-- **A big-endian file**: the equal bytes of the number of sections are zero, the first section's
name is made of the bytes that follow it, and so the table is read as too short. -/
theorem bigEndian_never {p : Profile} {infos : List SectionInfo} {d : ℕ} {more : Str}
    {result : List Section} (hnames : ∀ info ∈ infos, info.name.length ≤ 17)
    (hresult : List.Forall₂ (fun i s => bytes s.name = i.name) infos result)
    (h : parse p (writeHeader true infos.length ++ (sectionCount true infos.length ++
      ((layout true infos (63 + 38 * infos.length) d).flatten ++ more))) = .ok result) : False := by
  obtain ⟨rest, hrest⟩ : ∃ rest, rest = sectionCount true infos.length ++
    ((layout true infos (63 + 38 * infos.length) d).flatten ++ more) := ⟨_, rfl⟩
  rw [← hrest] at h
  obtain ⟨hlt, entries, description, hlen, hcount, hget, hfind, hoff, hread⟩ := parse_written h
  have hsc : sectionCount true infos.length =
      [(infos.length + 1).toUInt8, (infos.length + 1).toUInt8] := rfl
  simp only [numVal, if_true] at hcount hoff
  have hk : (infos.length + 1).toUInt8.toNat = 0 := by
    have hhead : rest.head? = some (infos.length + 1).toUInt8 := by
      rw [hrest, hsc]
      rfl
    exact first_byte_zero hhead (by omega) (by omega)
  have hmod : (infos.length + 1) % 256 = 0 := by
    rw [Nat.toUInt8, UInt8.toNat_ofNat'] at hk
    exact hk
  have hzero : (infos.length + 1).toUInt8 = 0 := UInt8.toNat_inj.mp hk
  cases infos with
  | nil => simp at hmod
  | cons info infos =>
    obtain ⟨s, result, hname, hnames', rfl⟩ := List.forall₂_cons_left_iff.mp hresult
    obtain ⟨n, hn⟩ : ∃ n, n = (info :: infos).length := ⟨_, rfl⟩
    rw [← hn] at hmod
    -- the first entry of the table, and what is read in its place
    obtain ⟨type, tail, htype, htl, he⟩ := sectionEntry_shape true info (63 + 38 * n)
    rw [numBytes, if_pos rfl] at he
    have hpad : (padName info.name).length = 17 := by
      rw [length_padName, Nat.max_eq_left (hnames info List.mem_cons_self)]
    obtain ⟨x, hx⟩ : ∃ x, rest = [0, 0] ++ (sectionEntry true info (63 + 38 * n) ++ x) := by
      rw [hrest, hsc, hzero, layout, List.flatten_cons, List.append_assoc, ← hn]
      exact ⟨_, rfl⟩
    have he38 : (sectionEntry true info (63 + 38 * n)).length = 38 := by
      rw [length_sectionEntry, Nat.max_eq_left (hnames info List.mem_cons_self)]
    obtain ⟨i, hi, -⟩ := List.mem_iff_getElem.mp (List.mem_of_find?_eq_some hfind)
    obtain ⟨y, entries, rfl⟩ := List.exists_cons_of_length_pos (by omega : 0 < entries.length)
    have hy : y = entryAt ((sectionEntry true info (63 + 38 * n) ++ x).drop 6) := by
      have h0 := hget 0 (by omega)
      rw [List.getElem?_cons_zero, Option.some.injEq, hx] at h0
      exact h0
    by_cases hd : isDataEntry y
    · -- the strings begin behind the end of the file
      rw [List.find?_cons_of_pos hd, Option.some.injEq] at hfind
      have hfield : description.offset = field (sectionEntry true info (63 + 38 * n)) 24 8 := by
        rw [← hfind, hy, entryAt]
        simp only
        rw [field_drop, field_append_left (by omega)]
      have hodd : 1 ≤ (63 + 38 * n) % 256 ^ 2 := by omega
      have hbig := shifted_offset type (63 + 38 * n) hpad htl
      rw [← he, ← hfield] at hbig
      have := Nat.mul_le_mul_left (256 ^ 6) hodd
      omega
    · -- the first section's name begins with the high bytes of the offset
      rw [List.filter_cons_of_pos (by simp [hd])] at hread
      obtain ⟨hy', hread⟩ := List.forall₂_cons.mp hread
      have hfield : info.name = field (sectionEntry true info (63 + 38 * n)) 6 17 := by
        rw [← hname, hy', hy, entryAt]
        simp only
        rw [field_drop, field_append_left (by omega)]
      have hlen17 : info.name.length = 17 := by
        rw [hfield, field, List.length_take, List.length_drop, he38]
        rfl
      have hpn : padName info.name = info.name := by
        rw [padName, hlen17]
        exact List.append_nil _
      rw [hpn] at he
      have hshort := shifted_count (x := ([type] ++ (beBytes 8 (63 + 38 * n) ++ tail)) ++ x) hlen17
        (he ▸ hfield)
      rw [← List.append_assoc info.name, ← he, ← hx, ← hcount] at hshort
      have hle := List.length_filter_le (fun i => !isDataEntry i) entries
      have h1 := hread.length_eq
      have h2 := hnames'.length_eq
      rw [List.length_cons] at hn hshort
      omega

/-! ## No list of sections -/

/-- `e` is the section `s` flattened, with the map of `e` in any order. -/
def FlattensTo (s : Section) (e : EdtSection) : Prop :=
  ∃ e', EdtSection.ofSection s = .ok e' ∧ e.Same e'

/-- The name in the table is the name of the section. -/
theorem FlattensTo.name {s : Section} {e : EdtSection} (h : FlattensTo s e) {name : Str}
    (hname : sectionName e = .ok name) : name = bytes s.name := by
  obtain ⟨e', he', hsame⟩ := h
  obtain ⟨e'', he'', hseq, hfind, -⟩ := ofSection_spec s
  rw [he'] at he''
  cases he''
  have hs : e.name = .seq s.name.utf8ByteSize 0 := hsame.name.trans hseq
  have hlen (x : String) : (bytes x).length = x.utf8ByteSize := length_bytes x
  have htake := take_of_findExtent hlen hfind
  rw [Nat.sub_self, List.drop_zero] at htake
  simp only [sectionName, hs, Nat.zero_add] at hname
  have hslice := slice_of_sliceStr hname
  unfold slice at hslice
  split_ifs at hslice
  cases hslice
  rw [List.drop_zero, EdtSection.dataset, hsame.data]
  exact htake

/-- The names that are scanned are those of the sections. -/
theorem names_of_scan {p : Profile} {sections : List Section} {edts : List EdtSection}
    {infos : List SectionInfo} (hedts : List.Forall₂ FlattensTo sections edts)
    (hinfos : List.Forall₂ (fun s i => scanSection p s = .ok i) edts infos) :
    infos.map SectionInfo.name = sections.map fun s => bytes s.name := by
  induction hedts generalizing infos with
  | nil =>
    cases hinfos
    rfl
  | cons he _ ih =>
    cases hinfos with
    | cons hi hinfos => rw [List.map_cons, List.map_cons, ih hinfos, he.name (scanSection_eq hi).1]

theorem names_of_same {sections result : List Section}
    (h : List.Forall₂ Section.Same sections result) :
    (sections.map fun s => bytes s.name) = result.map fun s => bytes s.name := by
  induction h with
  | nil => rfl
  | cons hs _ ih => rw [List.map_cons, List.map_cons, ih, hs.name]

/-- **No list of sections parses back**: for every list of sections with names of at most 17 bytes,
flattened with their maps in any order, either the writer or the parser panics, or the parser
returns other sections. -/
theorem edt_never_parses_back (p : Profile) (be : Bool) {sections : List Section}
    {edts : List EdtSection} (hnames : ∀ s ∈ sections, s.name.utf8ByteSize ≤ 17)
    (hedts : List.Forall₂ FlattensTo sections edts) :
    ¬ ∃ out result, write p be edts = .ok out ∧ parse p out.bytes = .ok result ∧
      List.Forall₂ Section.Same sections result := by
  rintro ⟨out, result, hwrite, hparse, hsame⟩
  obtain ⟨infos, hinfos, hrecords, hout, -⟩ := write_eq hwrite
  have hscan := names_of_scan hedts hinfos
  have hshort : ∀ info ∈ infos, info.name.length ≤ 17 := by
    intro info hi
    have hm : info.name ∈ sections.map fun s => bytes s.name := hscan ▸ List.mem_map_of_mem hi
    obtain ⟨s, hs, hn⟩ := List.mem_map.mp hm
    rw [← hn, length_bytes]
    exact hnames s hs
  have hlen : edts.length = infos.length := hinfos.length_eq
  have ht : 24 + (1 + 38 * (infos.length + 1)) = 63 + 38 * infos.length := by omega
  have hbytes : out.bytes = writeHeader be infos.length ++ (sectionCount be infos.length ++
      ((layout be infos (63 + 38 * infos.length) 0).flatten ++
        (out.records.flatten.flatten ++ out.blob))) := by
    rw [Output.bytes, Output.table, hout, hlen, ht]
    simp only [List.append_assoc]
  rw [hbytes] at hparse
  cases be with
  | false =>
    have hlt := (parse_written hparse).1
    have hflat : (layout false infos (63 + 38 * infos.length) 0).flatten.length =
        38 * (infos.length + 1) := by
      rw [length_flatten_of_forall (length_of_mem_layout hshort), length_layout]
    have hsize := sum_size_le hinfos
    rw [← sum_emitted (writeRecords_eq hrecords)] at hsize
    simp only [List.length_append, hflat] at hlt
    have hmore := littleEndian_never hshort (by omega) hparse
    have hl := congrArg List.length hscan
    rw [List.length_map, List.length_map, hsame.length_eq] at hl
    omega
  | true =>
    refine bigEndian_never hshort ?_ hparse
    have hr : infos.map SectionInfo.name = result.map fun s => bytes s.name :=
      hscan.trans (names_of_same hsame)
    rw [← List.forall₂_eq_eq_eq, List.forall₂_map_left_iff, List.forall₂_map_right_iff] at hr
    exact hr.imp fun _ _ h => h.symm

/-- The section `meta` with one number. -/
def metaSection : Section := .build "meta" [("mid", .integer (.double 7))]

/-- The section `meta`, flattened. -/
def flatMeta : EdtSection :=
  { name := .seq 4 0
    entries := AList.singleton (.seq 3 4) [.ofInteger (.double 7)]
    data := ⟨["meta", "mid"]⟩ }

theorem metaSection_flattens : FlattensTo metaSection flatMeta :=
  ⟨flatMeta, rfl, rfl, .refl _, rfl⟩

theorem meta_never_parses_back :
    ¬ ∃ out result, write .release true [flatMeta] = .ok out ∧
      parse .release out.bytes = .ok result ∧ List.Forall₂ Section.Same [metaSection] result :=
  edt_never_parses_back .release true (by decide +kernel) (.cons metaSection_flattens .nil)

/-- **A section that does not come back**: the file of `meta` is written, and the parser panics. -/
theorem meta_panics : FlattensTo metaSection flatMeta ∧
    ∃ out, write .debug false [flatMeta] = .ok out ∧ (parse .debug out.bytes).isOk = false := by
  refine ⟨metaSection_flattens, ?_⟩
  have hok : (write .debug false [flatMeta]).isOk = true := by decide +kernel
  have hparse : ((write .debug false [flatMeta]).toOption.map fun out =>
      (parse .debug out.bytes).isOk) = some false := by decide +kernel
  cases h : write .debug false [flatMeta] with
  | error e =>
    rw [h] at hok
    cases hok
  | ok out =>
    rw [h] at hparse
    exact ⟨out, rfl, Option.some.inj hparse⟩

end Jxtd.Engug
