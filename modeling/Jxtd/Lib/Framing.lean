import Jxtd.Lib.Bytes

/-!
# Messages that arrive in chunks

A receiver keeps the bytes of a message until they parse. There is no length: what parses is taken
for the whole message.

* `Protobuf`, `Frames`: the serialisation of a message type, and what it is relied on for;
  **`Protobuf.Delimited.frames`**: when what parses are the concatenations of complete records.
* `Receiver`, `append`, `feed`: the receiver, one chunk, all chunks; `appendInto`: a receiver that
  parses into its own message.
* `append_accepted`, `append_refused`: a chunk that completes a message.
* `received_last`, `received_cons`: the last chunk, and a chunk before it.
* **`feed_iff`**: the chunks are received as one message exactly when no proper part of them parses;
  **`feed_records_iff`**: when no chunk but the last ends with a record; `not_received_from`: what
  does not parse as a whole.
-/

namespace Lib

variable {M P : Type}

/-- The serialisation of a message type. -/
structure Protobuf (P : Type) where
  serialize : P → Str
  parse : Str → Option P

/-- A serialisation is a concatenation of complete records; what parses of it are the concatenations
of its first records. -/
structure Protobuf.Frames (proto : Protobuf P) (p : P) (records : List Str) : Prop where
  serialize_eq : proto.serialize p = records.flatten
  parse_serialize : proto.parse (proto.serialize p) = some p
  parse_prefix : ∀ bs, bs <+: proto.serialize p →
    ((proto.parse bs).isSome ↔ ∃ k, bs = (records.take k).flatten)

/-- What parses are the concatenations of complete records, and no record begins with another. -/
structure Protobuf.Delimited (proto : Protobuf P) (Complete : Str → Prop) : Prop where
  parse_iff : ∀ bs, (proto.parse bs).isSome ↔
    ∃ records : List Str, (∀ r ∈ records, Complete r) ∧ bs = records.flatten
  ne_nil : ∀ r, Complete r → r ≠ []
  prefix_free : ∀ r r', Complete r → Complete r' → r <+: r' → r = r'

/-- The records of a message, and that the message is read back. A message that is not `valid` is
written too, and does not parse. -/
structure Protobuf.Serializes (proto : Protobuf P) (Complete : Str → Prop) (valid : Prop) (p : P)
    (records : List Str) : Prop where
  serialize_eq : proto.serialize p = records.flatten
  complete : valid → ∀ r ∈ records, Complete r
  restored : valid → proto.parse (proto.serialize p) = some p
  refused : ¬ valid → proto.parse (proto.serialize p) = none

/-- A text is divided into records in one way. -/
theorem take_of_prefix {Complete : Str → Prop} (hne : ∀ r, Complete r → r ≠ [])
    (hfree : ∀ r r', Complete r → Complete r' → r <+: r' → r = r') {rs records : List Str}
    (hrs : ∀ r ∈ rs, Complete r) (hrecords : ∀ r ∈ records, Complete r)
    (h : rs.flatten <+: records.flatten) : ∃ k, rs = records.take k := by
  induction rs generalizing records with
  | nil => exact ⟨0, rfl⟩
  | cons r rs ih =>
    have hr := hrs r List.mem_cons_self
    cases records with
    | nil =>
      have hnil := List.prefix_nil.mp h
      rw [List.flatten_cons, List.append_eq_nil_iff] at hnil
      exact absurd hnil.1 (hne r hr)
    | cons r' records =>
      have hr' := hrecords r' List.mem_cons_self
      rw [List.flatten_cons, List.flatten_cons] at h
      -- both are where the text begins
      obtain rfl : r = r' := by
        rcases List.prefix_or_prefix_of_prefix ((List.prefix_append r _).trans h)
          (List.prefix_append r' _) with hle | hge
        · exact hfree r r' hr hr' hle
        · exact (hfree r' r hr' hr hge).symm
      obtain ⟨k, rfl⟩ := ih (fun x hx => hrs x (List.mem_cons_of_mem _ hx))
        (fun x hx => hrecords x (List.mem_cons_of_mem _ hx)) ((List.prefix_append_right_inj r).mp h)
      exact ⟨k + 1, rfl⟩

/-- **What parses of a serialisation** are the concatenations of its first records. -/
theorem Protobuf.Delimited.frames {proto : Protobuf P} {Complete : Str → Prop} {valid : Prop} {p : P}
    {records : List Str} (h : proto.Delimited Complete)
    (hp : proto.Serializes Complete valid p records) (hvalid : valid) : proto.Frames p records := by
  have hcomplete := hp.complete hvalid
  refine ⟨hp.serialize_eq, hp.restored hvalid, fun bs hbs => ?_⟩
  rw [h.parse_iff]
  constructor
  · rintro ⟨rs, hrs, rfl⟩
    obtain ⟨k, rfl⟩ := take_of_prefix h.ne_nil h.prefix_free hrs hcomplete (hp.serialize_eq ▸ hbs)
    exact ⟨k, rfl⟩
  · rintro ⟨k, rfl⟩
    exact ⟨records.take k, fun r hr => hcomplete r (List.mem_of_mem_take hr), rfl⟩

/-- The fields of an object and the bytes that it has kept; `none` for a null pointer. -/
structure Receiver (M : Type) where
  fields : M
  buf : Option Str

/-- An object that has kept nothing. -/
def Receiver.holding (m : M) : Receiver M := ⟨m, none⟩

/-- One chunk: `0` while the bytes do not parse, `-1` for a message with another magic number, and
`1` for a message. -/
def append (proto : Protobuf P) (genuine : P → Bool) (assign : M → P → M) (rx : Receiver M)
    (chunk : Str) : ℤ × Receiver M :=
  let bytes := rx.buf.getD [] ++ chunk
  match proto.parse bytes with
  | none => (0, { rx with buf := some bytes })
  | some p => if genuine p then (1, .holding (assign rx.fields p)) else (-1, .holding rx.fields)

/-- One chunk for a receiver that parses into the message it holds: a parse that fails leaves
`broken` there, and a message with another magic number leaves `clear`. -/
def appendInto (proto : Protobuf P) (broken : Str → P) (genuine : P → Bool) (clear : P)
    (store : M → P → M) (rx : Receiver M) (chunk : Str) : ℤ × Receiver M :=
  let bytes := rx.buf.getD [] ++ chunk
  match proto.parse bytes with
  | none => (0, ⟨store rx.fields (broken bytes), some bytes⟩)
  | some p =>
    if genuine p then (1, .holding (store rx.fields p)) else (-1, .holding (store rx.fields clear))

/-- All chunks, with what is returned for each. -/
def feed (append : Receiver M → Str → ℤ × Receiver M) (rx : Receiver M) :
    List Str → List ℤ × Receiver M
  | [] => ([], rx)
  | chunk :: chunks =>
    let fed := feed append (append rx chunk).2 chunks
    ((append rx chunk).1 :: fed.1, fed.2)

/-- The message is received with the last of the chunks. -/
def Received (append : Receiver M → Str → ℤ × Receiver M) (rx : Receiver M) (chunks : List Str)
    (m : M) : Prop :=
  feed append rx chunks = (List.replicate (chunks.length - 1) 0 ++ [1], .holding m)

variable {proto : Protobuf P} {genuine : P → Bool} {assign : M → P → M} {m₀ m : M} {p : P}

theorem append_of_parse_none {rx : Receiver M} {chunk : Str}
    (h : proto.parse (rx.buf.getD [] ++ chunk) = none) :
    append proto genuine assign rx chunk = (0, ⟨rx.fields, some (rx.buf.getD [] ++ chunk)⟩) := by
  rw [append, h]

theorem append_of_parse_some {rx : Receiver M} {chunk : Str}
    (h : proto.parse (rx.buf.getD [] ++ chunk) = some p) :
    append proto genuine assign rx chunk =
      if genuine p then (1, .holding (assign rx.fields p)) else (-1, .holding rx.fields) := by
  rw [append, h]

theorem appendInto_of_parse_none {broken : Str → P} {clear : P} {rx : Receiver M} {chunk : Str}
    (h : proto.parse (rx.buf.getD [] ++ chunk) = none) :
    appendInto proto broken genuine clear assign rx chunk =
      (0, ⟨assign rx.fields (broken (rx.buf.getD [] ++ chunk)), some (rx.buf.getD [] ++ chunk)⟩) := by
  rw [appendInto, h]

theorem appendInto_of_parse_some {broken : Str → P} {clear : P} {rx : Receiver M} {chunk : Str}
    (h : proto.parse (rx.buf.getD [] ++ chunk) = some p) :
    appendInto proto broken genuine clear assign rx chunk =
      if genuine p then (1, .holding (assign rx.fields p))
      else (-1, .holding (assign rx.fields clear)) := by
  rw [appendInto, h]

/-- **A message of the protocol** that parses is stored. -/
theorem append_accepted {rx : Receiver M} {chunk : Str}
    (h : proto.parse (rx.buf.getD [] ++ chunk) = some p) (hp : genuine p = true) :
    append proto genuine assign rx chunk = (1, .holding (assign rx.fields p)) := by
  rw [append_of_parse_some h, if_pos hp]

/-- A message of another protocol is dropped. -/
theorem append_refused {rx : Receiver M} {chunk : Str}
    (h : proto.parse (rx.buf.getD [] ++ chunk) = some p) (hp : ¬ genuine p = true) :
    append proto genuine assign rx chunk = (-1, .holding rx.fields) := by
  rw [append_of_parse_some h, if_neg hp]

theorem appendInto_accepted {broken : Str → P} {clear : P} {rx : Receiver M} {chunk : Str}
    (h : proto.parse (rx.buf.getD [] ++ chunk) = some p) (hp : genuine p = true) :
    appendInto proto broken genuine clear assign rx chunk =
      (1, .holding (assign rx.fields p)) := by
  rw [appendInto_of_parse_some h, if_pos hp]

theorem appendInto_refused {broken : Str → P} {clear : P} {rx : Receiver M} {chunk : Str}
    (h : proto.parse (rx.buf.getD [] ++ chunk) = some p) (hp : ¬ genuine p = true) :
    appendInto proto broken genuine clear assign rx chunk =
      (-1, .holding (assign rx.fields clear)) := by
  rw [appendInto_of_parse_some h, if_neg hp]

/-- A message that arrives before the last chunk is not received as a whole. -/
theorem append_ne_zero {rx : Receiver M} {chunk : Str}
    (h : proto.parse (rx.buf.getD [] ++ chunk) = some p) :
    (append proto genuine assign rx chunk).1 ≠ 0 := by
  rw [append_of_parse_some h]
  split_ifs
  · exact Int.one_ne_zero
  · exact Int.neg_ne_zero.mpr Int.one_ne_zero

/-- **The last chunk** completes the message. -/
theorem received_last {rx : Receiver M} {chunk : Str} (hgenuine : genuine p = true)
    (h : proto.parse (rx.buf.getD [] ++ chunk) = some p) :
    Received (append proto genuine assign) rx [chunk] m ↔ assign rx.fields p = m := by
  rw [Received, feed, feed, append_of_parse_some h, if_pos hgenuine]
  simp [Receiver.holding]

theorem received_cons {rx : Receiver M} {chunk : Str} {chunks : List Str} (hne : chunks ≠ [])
    (h : proto.parse (rx.buf.getD [] ++ chunk) = none) :
    Received (append proto genuine assign) rx (chunk :: chunks) m ↔
      Received (append proto genuine assign) ⟨rx.fields, some (rx.buf.getD [] ++ chunk)⟩ chunks
        m := by
  obtain ⟨n, hn⟩ : ∃ n, chunks.length = n + 1 :=
    Nat.exists_eq_succ_of_ne_zero fun hzero => hne (List.length_eq_zero_iff.mp hzero)
  rw [Received, Received, feed, append_of_parse_none h, List.length_cons, Nat.add_sub_cancel, hn,
    Nat.add_sub_cancel, List.replicate_succ, List.cons_append, Prod.ext_iff, Prod.ext_iff]
  exact and_congr_left fun _ => List.cons_inj_right 0

/-- Something is taken for a message at the first chunk. -/
theorem not_received_of_first {rx : Receiver M} {chunk : Str} {chunks : List Str} (hne : chunks ≠ [])
    (h : proto.parse (rx.buf.getD [] ++ chunk) = some p) :
    ¬ Received (append proto genuine assign) rx (chunk :: chunks) m := by
  intro hreceived
  have hfirst := congrArg (fun out => out.1.head?) hreceived
  obtain ⟨n, hn⟩ : ∃ n, chunks.length = n + 1 :=
    Nat.exists_eq_succ_of_ne_zero fun hzero => hne (List.length_eq_zero_iff.mp hzero)
  rw [List.length_cons, Nat.add_sub_cancel, hn, List.replicate_succ] at hfirst
  exact append_ne_zero h (Option.some.inj hfirst)

/-- **What does not parse as a whole is not received**: the last chunk is kept too. -/
theorem not_received_from {rx : Receiver M} {chunks : List Str} (hne : chunks ≠ [])
    (h : proto.parse (rx.buf.getD [] ++ chunks.flatten) = none) :
    ¬ Received (append proto genuine assign) rx chunks m := by
  induction chunks generalizing rx with
  | nil => exact absurd rfl hne
  | cons chunk chunks ih =>
    rcases eq_or_ne chunks [] with rfl | hchunks
    · rw [List.flatten_singleton] at h
      intro hreceived
      rw [Received, feed, feed, append_of_parse_none h] at hreceived
      cases congrArg (fun out => out.1.head?) hreceived
    · rw [List.flatten_cons, ← List.append_assoc] at h
      cases hparse : proto.parse (rx.buf.getD [] ++ chunk) with
      | some q => exact not_received_of_first hchunks hparse
      | none =>
        rw [received_cons hchunks hparse]
        exact ih hchunks h

/-- The chunks from some point on. -/
theorem received_from {rx : Receiver M} {chunks : List Str} (hne : chunks ≠ [])
    (hgenuine : genuine p = true)
    (h : proto.parse (rx.buf.getD [] ++ chunks.flatten) = some p) :
    Received (append proto genuine assign) rx chunks m ↔
      (∀ pre post, chunks = pre ++ post → pre ≠ [] → post ≠ [] →
        proto.parse (rx.buf.getD [] ++ pre.flatten) = none) ∧ assign rx.fields p = m := by
  induction chunks generalizing rx with
  | nil => exact absurd rfl hne
  | cons chunk chunks ih =>
    rcases eq_or_ne chunks [] with rfl | hchunks
    · rw [List.flatten_singleton] at h
      rw [received_last hgenuine h, and_iff_right]
      intro pre post heq hpre hpost
      rcases List.singleton_eq_append_iff.mp heq with ⟨hnil, -⟩ | ⟨-, hnil⟩
      · exact absurd hnil hpre
      · exact absurd hnil hpost
    · rw [List.flatten_cons, ← List.append_assoc] at h
      cases hparse : proto.parse (rx.buf.getD [] ++ chunk) with
      | some q =>
        refine iff_of_false (not_received_of_first hchunks hparse) fun hparts => ?_
        have hnone := hparts.1 [chunk] chunks rfl (List.cons_ne_nil _ _) hchunks
        rw [List.flatten_singleton, hparse] at hnone
        cases hnone
      | none =>
        have hrest : proto.parse ((Receiver.mk rx.fields
            (some (rx.buf.getD [] ++ chunk))).buf.getD [] ++ chunks.flatten) = some p := h
        rw [received_cons hchunks hparse, ih hchunks hrest, and_congr_left_iff]
        intro _
        constructor
        · intro hparts pre post heq hpre hpost
          rcases List.cons_eq_append_iff.mp heq with ⟨hnil, -⟩ | ⟨pre, rfl, hrest⟩
          · exact absurd hnil hpre
          · rw [List.flatten_cons, ← List.append_assoc]
            rcases eq_or_ne pre [] with rfl | hne'
            · rw [List.flatten_nil, List.append_nil]
              exact hparse
            · exact hparts pre post hrest hne' hpost
        · intro hparts pre post heq hpre hpost
          have hnone := hparts (chunk :: pre) post (by rw [heq, List.cons_append])
            (List.cons_ne_nil _ _) hpost
          rwa [List.flatten_cons, ← List.append_assoc] at hnone

/-- **When chunks are received as one message**: no proper part of them parses. -/
theorem feed_iff {chunks : List Str} (hne : chunks ≠ []) (hgenuine : genuine p = true)
    (h : proto.parse chunks.flatten = some p) :
    Received (append proto genuine assign) (.holding m₀) chunks m ↔
      (∀ pre post, chunks = pre ++ post → pre ≠ [] → post ≠ [] →
        proto.parse pre.flatten = none) ∧ assign m₀ p = m :=
  received_from hne hgenuine h

/-- **When the chunks of a message are received as that message**: none of them ends where a record
ends, other than the last. -/
theorem feed_records_iff {records chunks : List Str} (hframes : proto.Frames p records)
    (hgenuine : genuine p = true) (hchunks : chunks.flatten = proto.serialize p)
    (hne : chunks ≠ []) :
    Received (append proto genuine assign) (.holding m₀) chunks m ↔
      (∀ pre post k, chunks = pre ++ post → pre ≠ [] → post ≠ [] →
        pre.flatten ≠ (records.take k).flatten) ∧ assign m₀ p = m := by
  have hparse : proto.parse chunks.flatten = some p := hchunks ▸ hframes.parse_serialize
  rw [feed_iff hne hgenuine hparse, and_congr_left_iff]
  intro _
  have hjoin {pre post : List Str} (heq : chunks = pre ++ post) :
      pre.flatten <+: proto.serialize p := by
    rw [← hchunks, heq, List.flatten_append]
    exact List.prefix_append ..
  constructor
  · intro hparts pre post k heq hpre hpost hcut
    have hsome := (hframes.parse_prefix _ (hjoin heq)).mpr ⟨k, hcut⟩
    rw [hparts pre post heq hpre hpost] at hsome
    cases hsome
  · intro hparts pre post heq hpre hpost
    by_contra hsome
    obtain ⟨k, hk⟩ := (hframes.parse_prefix _ (hjoin heq)).mp
      (Option.isSome_iff_ne_none.mpr hsome)
    exact hparts pre post k heq hpre hpost hk

end Lib
