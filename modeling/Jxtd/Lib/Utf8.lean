import Jxtd.Lib.Rust

/-!
# Characters and their bytes

The bytes of a text, and how it is cut at an ASCII byte: a byte below `128` is a character of its
own, and no other character has one.

* `utf8`: the bytes of a list of characters; `fromUtf8_utf8`: they are read back.
* `encode_ascii`, `le_of_mem_encode`: the bytes of a character below `128`, and of another one.
* **`utf8_split`**: a text that is cut at an ASCII byte is cut between characters.
-/

namespace Lib

/-- The bytes of characters. -/
def utf8 (cs : List Char) : Str := cs.flatMap String.utf8EncodeChar

@[simp] theorem utf8_nil : utf8 [] = [] := rfl

theorem utf8_cons (c : Char) (cs : List Char) :
    utf8 (c :: cs) = String.utf8EncodeChar c ++ utf8 cs :=
  List.flatMap_cons

@[simp] theorem utf8_append (cs ds : List Char) : utf8 (cs ++ ds) = utf8 cs ++ utf8 ds :=
  List.flatMap_append

theorem bytes_ofList (cs : List Char) : bytes (String.ofList cs) = utf8 cs := by
  rw [bytes, String.toByteArray_ofList, List.utf8Encode, List.toList_data_toByteArray]
  rfl

/-- **The characters are read back** from their bytes. -/
theorem fromUtf8_bytes (s : String) : fromUtf8 (bytes s) = some s := by
  have h : (bytes s).toByteArray = s.toByteArray := by
    rw [bytes]
    ext1
    simp
  rw [fromUtf8, h, String.fromUTF8?, dif_pos s.isValidUTF8]
  rfl

theorem fromUtf8_utf8 (cs : List Char) : fromUtf8 (utf8 cs) = some (String.ofList cs) := by
  rw [← bytes_ofList, fromUtf8_bytes]

/-! ## ASCII -/

theorem encode_ascii {c : Char} (h : c.toNat < 128) :
    String.utf8EncodeChar c = [c.toNat.toUInt8] := by
  have hc : c.utf8Size = 1 := by
    rw [Char.utf8Size_eq_one_iff, UInt32.le_iff_toNat_le]
    exact Nat.le_of_lt_succ h
  rw [String.utf8EncodeChar_eq_singleton hc]
  rfl

theorem le_of_mem_encode {c : Char} (h : 128 ≤ c.toNat) {b : UInt8}
    (hb : b ∈ String.utf8EncodeChar c) : 128 ≤ b.toNat := by
  have hv : c.toNat = c.val.toNat := rfl
  have hbyte (n k : ℕ) (hk : 128 ≤ k) (hn : n + k < 256) : 128 ≤ (UInt8.ofNat (n + k)).toNat := by
    rw [UInt8.toNat_ofNat']
    omega
  unfold String.utf8EncodeChar at hb
  simp only at hb
  split_ifs at hb with h1 h2 h3
  · omega
  all_goals
    simp only [List.mem_cons, List.not_mem_nil, or_false] at hb
  · rcases hb with rfl | rfl <;> exact hbyte _ _ (by decide) (by omega)
  · rcases hb with rfl | rfl | rfl <;> exact hbyte _ _ (by decide) (by omega)
  · rcases hb with rfl | rfl | rfl | rfl <;> exact hbyte _ _ (by decide) (by omega)

/-- **A text that is cut at an ASCII byte** is cut before and after that character. -/
theorem utf8_split {cs : List Char} {a rest : Str} {b : UInt8} (hb : b.toNat < 128)
    (h : utf8 cs = a ++ b :: rest) :
    ∃ cs₁ c cs₂, cs = cs₁ ++ c :: cs₂ ∧ a = utf8 cs₁ ∧ c.toNat = b.toNat ∧ rest = utf8 cs₂ := by
  induction cs generalizing a with
  | nil => simp at h
  | cons c cs ih =>
    -- past the bytes of the first character the rest of the text decides
    have hlater (a' : Str) (ha : a = String.utf8EncodeChar c ++ a')
        (hcs : utf8 cs = a' ++ b :: rest) :
        ∃ cs₁ d cs₂, c :: cs = cs₁ ++ d :: cs₂ ∧ a = utf8 cs₁ ∧ d.toNat = b.toNat ∧
          rest = utf8 cs₂ := by
      obtain ⟨cs₁, d, cs₂, rfl, rfl, hd, hrest⟩ := ih hcs
      exact ⟨c :: cs₁, d, cs₂, rfl, by rw [ha, utf8_cons], hd, hrest⟩
    rw [utf8_cons] at h
    rcases List.append_eq_append_iff.mp h with ⟨a', ha, hcs⟩ | ⟨c', hc, hcs⟩
    · exact hlater a' ha hcs
    · cases c' with
      | nil => exact hlater [] (by rw [hc, List.append_nil, List.append_nil]) hcs.symm
      | cons x c' =>
        rw [List.cons_append, List.cons.injEq] at hcs
        obtain ⟨rfl, hcs⟩ := hcs
        have hmem : b ∈ String.utf8EncodeChar c := by simp [hc]
        have hascii : c.toNat < 128 := by
          by_contra hge
          have hle := le_of_mem_encode (not_lt.mp hge) hmem
          omega
        rw [encode_ascii hascii] at hc
        obtain ⟨rfl, hx, rfl⟩ : a = [] ∧ c.toNat.toUInt8 = b ∧ c' = [] := by
          cases a with
          | nil => simpa [eq_comm] using hc
          | cons y a => simp at hc
        refine ⟨[], c, cs, rfl, rfl, ?_, hcs⟩
        rw [← hx, toNat_toUInt8_of_lt (by omega)]

/-- The characters below `128` of a text are its bytes below `128`. -/
theorem mem_utf8 {cs : List Char} {b : UInt8} (hb : b.toNat < 128) :
    b ∈ utf8 cs ↔ ∃ c ∈ cs, c.toNat = b.toNat := by
  constructor
  · intro h
    obtain ⟨a, rest, h⟩ := List.append_of_mem h
    obtain ⟨cs₁, c, cs₂, rfl, -, hc, -⟩ := utf8_split hb h
    exact ⟨c, List.mem_append_right _ List.mem_cons_self, hc⟩
  · rintro ⟨c, hc, h⟩
    refine List.mem_flatMap.mpr ⟨c, hc, ?_⟩
    rw [encode_ascii (h ▸ hb), h]
    simp

theorem notMem_utf8 {cs : List Char} {b : UInt8} (hb : b.toNat < 128)
    (h : ∀ c ∈ cs, c.toNat ≠ b.toNat) : b ∉ utf8 cs := by
  intro hmem
  obtain ⟨c, hc, heq⟩ := (mem_utf8 hb).mp hmem
  exact h c hc heq

theorem utf8_ne_nil {cs : List Char} (h : cs ≠ []) : utf8 cs ≠ [] := by
  intro hnil
  refine h (String.ofList_injective ?_)
  rw [← Option.some_inj, ← fromUtf8_utf8, ← fromUtf8_utf8, hnil]
  rfl

/-- A text whose first byte is below `128` begins with that character. -/
theorem head_of_utf8 {cs : List Char} {b : UInt8} (hb : b.toNat < 128)
    (h : (utf8 cs).head? = some b) : ∃ c cs', cs = c :: cs' ∧ c.toNat = b.toNat := by
  obtain ⟨rest, h⟩ := List.head?_eq_some_iff.mp h
  obtain ⟨cs₁, c, cs₂, rfl, hnil, hc, -⟩ := utf8_split (a := []) hb h
  have hcs : cs₁ = [] := by
    by_contra hne
    exact utf8_ne_nil hne hnil.symm
  exact ⟨c, cs₂, by rw [hcs, List.nil_append], hc⟩

end Lib
