import Jxtd.Lib.Framing

/-!
# Tagged records

A message on the wire is a sequence of records; a record is a key, which holds the number of the
field and the type of its value, and the value.

* `varint`, `readVarint`: numbers in groups of seven bits (**`readVarint_varint`**).
* `Record`, `readRecord`: one record; **`readRecord_encode`**: it is read back, whatever follows.
* `readRecords`: a whole message; **`readRecords_encode`**.
* `Complete`, `readMessage`: messages of a type; **`readMessage_isSome_iff`**: what is read as one.
* `number`, `bytes`, `store`: the fields of a message; `store_invariant`.
-/

namespace Lib.Wire

/-! ## Numbers -/

/-- The groups of a number, at most `k` of them. -/
def groups : ℕ → ℕ → Str
  | 0, _ => []
  | k + 1, n => if n < 128 then [n.toUInt8] else (n % 128 + 128).toUInt8 :: groups k (n / 128)

/-- All groups of a number. -/
def varint (n : ℕ) : Str := groups (n + 1) n

def readVarint : Str → Option (ℕ × Str)
  | [] => none
  | b :: bs =>
    if b.toNat < 128 then some (b.toNat, bs)
    else (readVarint bs).map fun (m, rest) => (b.toNat - 128 + 128 * m, rest)

theorem readVarint_groups {k n : ℕ} (h : n < k) (rest : Str) :
    readVarint (groups k n ++ rest) = some (n, rest) := by
  induction k generalizing n with
  | zero => omega
  | succ k ih =>
    by_cases hn : n < 128
    · have hb : n.toUInt8.toNat = n := toNat_toUInt8_of_lt (by omega)
      rw [groups, if_pos hn, List.cons_append, List.nil_append, readVarint, hb, if_pos hn]
    · have hb : (n % 128 + 128).toUInt8.toNat = n % 128 + 128 := toNat_toUInt8_of_lt (by omega)
      rw [groups, if_neg hn, List.cons_append, readVarint, hb, if_neg (by omega),
        ih (n := n / 128) (by omega), Option.map_some, Nat.add_sub_cancel]
      dsimp only
      rw [Nat.mod_add_div]

/-- **A number is read back**, whatever follows. -/
theorem readVarint_varint (n : ℕ) (rest : Str) : readVarint (varint n ++ rest) = some (n, rest) :=
  readVarint_groups n.lt_succ_self rest

theorem varint_ne_nil (n : ℕ) : varint n ≠ [] := by
  rw [varint, groups]
  split_ifs
  · exact List.cons_ne_nil _ _
  · exact List.cons_ne_nil _ _

/-! ## Records -/

/-- The value of a record: a number, or bytes preceded by their length, or four bytes. -/
inductive Value
  | varint (n : ℕ)
  | len (bytes : Str)
  | fixed32 (bytes : Str)
deriving DecidableEq

/-- A record. -/
structure Record where
  field : ℕ
  value : Value
deriving DecidableEq

/-- The type of a value, in the low bits of the key. -/
def Value.type : Value → ℕ
  | .varint _ => 0
  | .len _ => 2
  | .fixed32 _ => 5

def Value.encode : Value → Str
  | .varint n => Wire.varint n
  | .len bytes => Wire.varint bytes.length ++ bytes
  | .fixed32 bytes => bytes

def Record.encode (r : Record) : Str := varint (r.field * 8 + r.value.type) ++ r.value.encode

/-- What the format can hold: there is no field `0`. -/
structure Record.Fits (r : Record) : Prop where
  field : 0 < r.field
  value : ∀ bytes, r.value = .fixed32 bytes → bytes.length = 4

/-- The first `n` bytes. -/
def readBytes (n : ℕ) (bs : Str) : Option (Str × Str) :=
  if bs.length < n then none else some (bs.take n, bs.drop n)

def readValue (type : ℕ) (bs : Str) : Option (Value × Str) :=
  match type with
  | 0 => (readVarint bs).map fun (n, rest) => (.varint n, rest)
  | 2 => (readVarint bs).bind fun (n, rest) => (readBytes n rest).map fun (b, rest) => (.len b, rest)
  | 5 => (readBytes 4 bs).map fun (b, rest) => (.fixed32 b, rest)
  | _ => none

def readRecord (bs : Str) : Option (Record × Str) :=
  (readVarint bs).bind fun (key, rest) =>
    if key / 8 = 0 then none
    else (readValue (key % 8) rest).map fun (value, rest) => (⟨key / 8, value⟩, rest)

theorem readBytes_append {n : ℕ} {bs : Str} (h : bs.length = n) (rest : Str) :
    readBytes n (bs ++ rest) = some (bs, rest) := by
  subst h
  rw [readBytes, if_neg (by simp), List.take_left', List.drop_left']
  · rfl
  · rfl

theorem readValue_encode {value : Value} (h : ∀ bytes, value = .fixed32 bytes → bytes.length = 4)
    (rest : Str) : readValue value.type (value.encode ++ rest) = some (value, rest) := by
  cases value with
  | varint n =>
    simp only [Value.type, Value.encode, readValue]
    rw [readVarint_varint, Option.map_some]
  | len bytes =>
    simp only [Value.type, Value.encode, readValue]
    rw [List.append_assoc, readVarint_varint, Option.bind_some, readBytes_append rfl,
      Option.map_some]
  | fixed32 bytes =>
    simp only [Value.type, Value.encode, readValue]
    rw [readBytes_append (h bytes rfl), Option.map_some]

theorem Value.type_lt (value : Value) : value.type < 8 := by
  cases value <;> simp only [Value.type] <;> decide

/-- **A record is read back**, whatever follows. -/
theorem readRecord_encode {r : Record} (h : r.Fits) (rest : Str) :
    readRecord (r.encode ++ rest) = some (r, rest) := by
  have htype := r.value.type_lt
  have hdiv : (r.field * 8 + r.value.type) / 8 = r.field := by omega
  have hmod : (r.field * 8 + r.value.type) % 8 = r.value.type := by omega
  rw [Record.encode, List.append_assoc, readRecord, readVarint_varint, Option.bind_some]
  simp only [hdiv, hmod]
  rw [if_neg h.field.ne', readValue_encode h.value, Option.map_some]

theorem Record.encode_ne_nil (r : Record) : r.encode ≠ [] :=
  List.append_ne_nil_of_left_ne_nil (varint_ne_nil _) _

/-! ## Messages -/

/-- Reads at most `k` records up to the end. -/
def readUpTo : ℕ → Str → Option (List Record)
  | _, [] => some []
  | 0, _ :: _ => none
  | k + 1, b :: bs =>
    (readRecord (b :: bs)).bind fun (r, rest) => (readUpTo k rest).map fun rs => r :: rs

/-- The records of a message. -/
def readRecords (bs : Str) : Option (List Record) := readUpTo bs.length bs

theorem readUpTo_encode {rs : List Record} (h : ∀ r ∈ rs, r.Fits) {k : ℕ} (hk : rs.length ≤ k) :
    readUpTo k (rs.flatMap Record.encode) = some rs := by
  induction rs generalizing k with
  | nil => rw [List.flatMap_nil, readUpTo]
  | cons r rs ih =>
    obtain ⟨k, rfl⟩ : ∃ j, k = j + 1 := ⟨k - 1, by rw [List.length_cons] at hk; omega⟩
    have hread := readRecord_encode (h r List.mem_cons_self) (rs.flatMap Record.encode)
    rw [List.flatMap_cons]
    obtain ⟨b, bs, hb⟩ := List.exists_cons_of_ne_nil
      (List.append_ne_nil_of_left_ne_nil r.encode_ne_nil (rs.flatMap Record.encode))
    rw [hb] at hread ⊢
    rw [readUpTo, hread, Option.bind_some]
    simp only
    rw [ih (fun r' hr' => h r' (List.mem_cons_of_mem _ hr')) (Nat.le_of_succ_le_succ hk),
      Option.map_some]

/-- **A message is read back.** -/
theorem readRecords_encode {rs : List Record} (h : ∀ r ∈ rs, r.Fits) :
    readRecords (rs.flatMap Record.encode) = some rs := by
  refine readUpTo_encode h ?_
  have hlength : ∀ rs : List Record, rs.length ≤ (rs.flatMap Record.encode).length := by
    intro rs
    induction rs with
    | nil => exact Nat.zero_le _
    | cons r rs ih =>
      have hr := List.length_pos_of_ne_nil r.encode_ne_nil
      rw [List.flatMap_cons, List.length_append, List.length_cons]
      omega
  exact hlength rs

/-! ## What is read of a text -/

/-- The reader looks at no more than it takes. -/
def Local {α : Type} (read : Str → Option (α × Str)) : Prop :=
  ∀ bs a rest, read bs = some (a, rest) → ∃ piece, bs = piece ++ rest ∧
    ∀ rest', read (piece ++ rest') = some (a, rest')

theorem Local.map {α β : Type} {read : Str → Option (α × Str)} (h : Local read) (f : α → β) :
    Local fun bs => (read bs).map fun (a, rest) => (f a, rest) := by
  intro bs b rest hread
  obtain ⟨⟨a, rest₀⟩, ha, heq⟩ := Option.map_eq_some_iff.mp hread
  cases heq
  obtain ⟨piece, rfl, hpiece⟩ := h bs a rest ha
  refine ⟨piece, rfl, fun rest' => ?_⟩
  show (read (piece ++ rest')).map _ = _
  rw [hpiece, Option.map_some]

theorem Local.bind {α β : Type} {read : Str → Option (α × Str)}
    {next : α → Str → Option (β × Str)} (h : Local read) (hnext : ∀ a, Local (next a)) :
    Local fun bs => (read bs).bind fun (a, rest) => next a rest := by
  intro bs b rest hread
  obtain ⟨⟨a, rest₀⟩, ha, hb⟩ := Option.bind_eq_some_iff.mp hread
  obtain ⟨piece, rfl, hpiece⟩ := h bs a rest₀ ha
  obtain ⟨piece', rfl, hpiece'⟩ := hnext a rest₀ b rest hb
  refine ⟨piece ++ piece', by rw [List.append_assoc], fun rest' => ?_⟩
  show (read (piece ++ piece' ++ rest')).bind _ = _
  rw [List.append_assoc, hpiece, Option.bind_some]
  exact hpiece' rest'

theorem local_none {α : Type} : Local fun _ => (none : Option (α × Str)) := by
  intro bs a rest h
  cases h

theorem local_readVarint : Local readVarint := by
  intro bs
  induction bs with
  | nil =>
    intro n rest h
    cases h
  | cons b bs ih =>
    intro n rest h
    rw [readVarint] at h
    split_ifs at h with hb
    · cases h
      refine ⟨[b], rfl, fun rest' => ?_⟩
      rw [List.cons_append, List.nil_append, readVarint, if_pos hb]
    · obtain ⟨⟨m, rest₀⟩, hm, heq⟩ := Option.map_eq_some_iff.mp h
      cases heq
      obtain ⟨piece, rfl, hpiece⟩ := ih m rest hm
      refine ⟨b :: piece, rfl, fun rest' => ?_⟩
      rw [List.cons_append, readVarint, if_neg hb, hpiece, Option.map_some]

theorem local_readBytes (n : ℕ) : Local (readBytes n) := by
  intro bs b rest h
  rw [readBytes] at h
  split_ifs at h with hlt
  cases h
  refine ⟨bs.take n, (List.take_append_drop n bs).symm, fun rest' => ?_⟩
  exact readBytes_append (List.length_take_of_le (not_lt.mp hlt)) rest'

theorem local_readValue (type : ℕ) : Local (readValue type) := by
  unfold readValue
  split
  · exact local_readVarint.map _
  · exact local_readVarint.bind fun n => (local_readBytes n).map _
  · exact (local_readBytes 4).map _
  · exact local_none

theorem local_readRecord : Local readRecord := by
  have hafter (key : ℕ) : Local fun rest =>
      if key / 8 = 0 then none
      else (readValue (key % 8) rest).map fun (value, rest) => (Record.mk (key / 8) value, rest) := by
    by_cases hkey : key / 8 = 0
    · simp only [if_pos hkey]
      exact local_none
    · simp only [if_neg hkey]
      exact (local_readValue _).map _
  exact local_readVarint.bind hafter

/-- A text that is one record is read as that record, whatever follows. -/
theorem readRecord_append {piece : Str} {r : Record} (h : readRecord piece = some (r, []))
    (rest : Str) : readRecord (piece ++ rest) = some (r, rest) := by
  obtain ⟨piece', heq, hpiece⟩ := local_readRecord piece r [] h
  rw [List.append_nil] at heq
  rw [heq]
  exact hpiece rest

theorem ne_nil_of_readRecord {bs rest : Str} {r : Record} (h : readRecord bs = some (r, rest)) :
    bs ≠ [] := by
  rintro rfl
  cases h

/-- A text that is one record of the type. -/
def Complete (typed : Record → Bool) (bs : Str) : Prop :=
  ∃ r, readRecord bs = some (r, []) ∧ typed r = true

/-- **No record begins with another.** -/
theorem Complete.prefix_free {typed : Record → Bool} {bs bs' : Str} (h : Complete typed bs)
    (h' : Complete typed bs') (hle : bs <+: bs') : bs = bs' := by
  obtain ⟨r, hr, -⟩ := h
  obtain ⟨r', hr', -⟩ := h'
  obtain ⟨rest, rfl⟩ := hle
  rw [readRecord_append hr] at hr'
  cases hr'
  rw [List.append_nil]

/-- What is read is divided into records. -/
theorem exists_of_readUpTo {k : ℕ} {bs : Str} {rs : List Record} (h : readUpTo k bs = some rs) :
    ∃ pieces : List Str, bs = pieces.flatten ∧
      List.Forall₂ (fun piece r => readRecord piece = some (r, [])) pieces rs := by
  induction k generalizing bs rs with
  | zero =>
    cases bs with
    | nil =>
      cases h
      exact ⟨[], rfl, .nil⟩
    | cons b bs => cases h
  | succ k ih =>
    cases bs with
    | nil =>
      cases h
      exact ⟨[], rfl, .nil⟩
    | cons b bs =>
      obtain ⟨⟨r, rest⟩, hr, h⟩ := Option.bind_eq_some_iff.mp h
      obtain ⟨rs, hrs, rfl⟩ := Option.map_eq_some_iff.mp h
      obtain ⟨piece, heq, hpiece⟩ := local_readRecord _ r rest hr
      obtain ⟨pieces, rfl, hall⟩ := ih hrs
      refine ⟨piece :: pieces, heq, .cons ?_ hall⟩
      have hread := hpiece []
      rwa [List.append_nil] at hread

theorem readUpTo_of_forall {k : ℕ} {pieces : List Str} {rs : List Record}
    (h : List.Forall₂ (fun piece r => readRecord piece = some (r, [])) pieces rs)
    (hk : pieces.flatten.length ≤ k) : readUpTo k pieces.flatten = some rs := by
  induction h generalizing k with
  | nil => rw [List.flatten_nil, readUpTo]
  | @cons piece r pieces rs hr _ ih =>
    obtain ⟨b, bs, rfl⟩ := List.exists_cons_of_ne_nil (ne_nil_of_readRecord hr)
    have hread := readRecord_append hr pieces.flatten
    rw [List.flatten_cons, List.cons_append, List.length_cons, List.length_append] at hk
    obtain ⟨k, rfl⟩ : ∃ j, k = j + 1 := ⟨k - 1, by omega⟩
    rw [List.flatten_cons, List.cons_append] at *
    rw [readUpTo, hread, Option.bind_some]
    show (readUpTo k pieces.flatten).map _ = _
    rw [ih (by omega), Option.map_some]

/-! ## Typed messages -/

/-- A message whose records are all of its type. -/
def readMessage {P : Type} (typed : Record → Bool) (set : P → Record → P) (new : P) (bs : Str) :
    Option P :=
  (readRecords bs).bind fun rs => if rs.all typed then some (rs.foldl set new) else none

theorem forall_complete_iff {typed : Record → Bool} {pieces : List Str} :
    (∀ piece ∈ pieces, Complete typed piece) ↔
      ∃ rs : List Record, List.Forall₂ (fun piece r => readRecord piece = some (r, [])) pieces rs ∧
        rs.all typed = true := by
  induction pieces with
  | nil => exact iff_of_true (List.forall_mem_nil _) ⟨[], .nil, rfl⟩
  | cons piece pieces ih =>
    rw [List.forall_mem_cons, ih]
    constructor
    · rintro ⟨⟨r, hr, htyped⟩, rs, hall, hrs⟩
      exact ⟨r :: rs, .cons hr hall, by rw [List.all_cons, htyped, hrs]; rfl⟩
    · rintro ⟨_, hall, hrs⟩
      cases hall with
      | cons hr hall =>
        rw [List.all_cons, Bool.and_eq_true] at hrs
        exact ⟨⟨_, hr, hrs.1⟩, _, hall, hrs.2⟩

/-- **What is read as a message** are the concatenations of complete records. -/
theorem readMessage_isSome_iff {P : Type} {typed : Record → Bool} {set : P → Record → P} {new : P}
    {bs : Str} : (readMessage typed set new bs).isSome ↔
      ∃ pieces : List Str, (∀ piece ∈ pieces, Complete typed piece) ∧ bs = pieces.flatten := by
  constructor
  · intro h
    obtain ⟨p, hp⟩ := Option.isSome_iff_exists.mp h
    obtain ⟨rs, hrs, hif⟩ := Option.bind_eq_some_iff.mp hp
    split_ifs at hif with htyped
    obtain ⟨pieces, rfl, hall⟩ := exists_of_readUpTo hrs
    exact ⟨pieces, forall_complete_iff.mpr ⟨rs, hall, htyped⟩, rfl⟩
  · rintro ⟨pieces, hpieces, rfl⟩
    obtain ⟨rs, hall, htyped⟩ := forall_complete_iff.mp hpieces
    have hread : readRecords pieces.flatten = some rs := readUpTo_of_forall hall (le_refl _)
    rw [readMessage, hread, Option.bind_some, if_pos htyped]
    rfl

/-- The serialisation of a message type, by its records. -/
def protobuf {P : Type} (typed : Record → Bool) (set : P → Record → P) (new : P)
    (records : P → List Record) : Protobuf P where
  serialize p := (records p).flatMap Record.encode
  parse := readMessage typed set new

theorem delimited_protobuf {P : Type} (typed : Record → Bool) (set : P → Record → P) (new : P)
    (records : P → List Record) :
    (protobuf typed set new records).Delimited (Complete typed) where
  parse_iff _ := readMessage_isSome_iff
  ne_nil _ h := h.elim fun _ hr => ne_nil_of_readRecord hr.1
  prefix_free _ _ h h' := h.prefix_free h'

/-! ## Fields -/

/-- A number; the default `0` is not written. -/
def number (field n : ℕ) : List Record := if n = 0 then [] else [⟨field, .varint n⟩]

/-- Bytes; the default is not written. -/
def bytes (field : ℕ) (b : Str) : List Record := if b = [] then [] else [⟨field, .len b⟩]

theorem mem_number {field n : ℕ} {r : Record} (h : r ∈ number field n) :
    r = ⟨field, .varint n⟩ := by
  unfold number at h
  split_ifs at h
  · cases h
  · exact List.mem_singleton.mp h

theorem mem_bytes {field : ℕ} {b : Str} {r : Record} (h : r ∈ bytes field b) :
    r = ⟨field, .len b⟩ := by
  unfold bytes at h
  split_ifs at h
  · cases h
  · exact List.mem_singleton.mp h

/-- Stores the fields of a message one after the other, and stops at the first that is refused. -/
def store {M : Type} (set : M → Record → Option M) : M → List Record → M
  | m, [] => m
  | m, r :: rs =>
    match set m r with
    | none => m
    | some m => store set m rs

/-- What no field of the list touches. -/
theorem store_invariant {M : Type} {set : M → Record → Option M} {I : M → Prop} {rs : List Record}
    (hI : ∀ m m', ∀ r ∈ rs, I m → set m r = some m' → I m') {m : M} (hm : I m) :
    I (store set m rs) := by
  induction rs generalizing m with
  | nil => exact hm
  | cons r rs ih =>
    rw [store]
    cases hset : set m r with
    | none => exact hm
    | some m' =>
      exact ih (fun a a' r' hr' => hI a a' r' (List.mem_cons_of_mem _ hr'))
        (hI m m' r List.mem_cons_self hm hset)

end Lib.Wire
