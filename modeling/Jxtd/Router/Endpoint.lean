import Jxtd.Lib.Strings
import Jxtd.Proto.Taskdep.Message

/-!
# The addresses of the router

`set_endpoint` of `router/bin/main.cc`, which reads the address of a node.

* `setEndpoint`: the function, where a separator that is missing is found at `npos`.
* `Address`, `Address.unique`: the strings of the form `proto://url:port[/path]`, and their parts.
* `setEndpoint_path`, `setEndpoint_noPath`: what is read of an address.
* `setEndpoint_ne`: -1 is never returned.
* **`exact_iff`**: exactly the addresses with a path and a port below 2^31 are read as they should.
-/

namespace Jxtd.Router

open Lib Taskdep

/-- `set_endpoint`; the error is what `stoi` throws. -/
def setEndpoint (endpoint : Endpoint) (endpoint_ : Str) : Except StoiError (ℤ × Endpoint) :=
  let pos := findFirstOf endpoint_ 0x3a
  -- no position is negative, so that -1 is not returned here
  let proto := endpoint_.take (pos.getD endpoint_.length)
  let endpoint_ := endpoint_.drop (posAdd pos 3)
  let pos := findFirstOf endpoint_ 0x3a
  -- nor here
  let url := endpoint_.take (pos.getD endpoint_.length)
  let endpoint_ := endpoint_.drop (posAdd pos 1)
  let pos := findFirstOf endpoint_ 0x2f
  match stoi endpoint_ with
  | .error error => .error error
  | .ok port =>
    let path := if pos = some 0 then [] else endpoint_.drop (posAdd pos 1)
    let endpoint := (endpoint.setProto proto).2.setUrl url
    let endpoint := (endpoint.setPort (UInt32.ofInt port)).setPath path
    .ok (0, (endpoint.setAuthtype 0x0).2)

/-- The string is `proto://url:port`, with a path behind a slash if there is one. -/
structure Address (s proto url port : Str) (path : Option Str) : Prop where
  parts : s = proto ++ lit "://" ++ url ++ lit ":" ++ port ++ (path.map (lit "/" ++ ·)).getD []
  known : proto ∈ protos
  plain : 0x3a ∉ url
  nonempty : port ≠ []
  digits : ∀ b ∈ port, decDigit b

/-- The endpoint has these parts. -/
structure Parts (endpoint : Endpoint) (proto url port path : Str) : Prop where
  proto : endpoint.proto = proto
  url : endpoint.url = url
  port : endpoint.port.toNat = decVal port
  path : endpoint.path = path

/-- An address is read, and everything else is refused. -/
structure Exact (endpoint : Endpoint) (s : Str) : Prop where
  reads : ∀ {proto url port path}, Address s proto url port path →
    ∃ endpoint', setEndpoint endpoint s = .ok (0, endpoint') ∧
      Parts endpoint' proto url port (path.getD [])
  refuses : (∀ proto url port path, ¬ Address s proto url port path) →
    setEndpoint endpoint s = .ok (-1, endpoint)

variable {endpoint : Endpoint} {s proto url port : Str} {path : Option Str}

/-! ## Addresses -/

theorem notMem_protos : ∀ proto ∈ protos, (0x3a : UInt8) ∉ proto := by decide

theorem notMem_digits {b : UInt8} (h : ∀ b ∈ port, decDigit b) (hb : decDigit b = false) :
    b ∉ port := by
  intro hmem
  rw [h b hmem] at hb
  cases hb

/-- What stands behind the port. -/
def pathTail (path : Option Str) : Str := (path.map (lit "/" ++ ·)).getD []

theorem pathTail_injective : Function.Injective pathTail := by
  intro path path' h
  cases path with
  | none =>
    cases path' with
    | none => rfl
    | some p => cases h
  | some p =>
    cases path' with
    | none => cases h
    | some p' =>
      have hpath : lit "/" ++ p = lit "/" ++ p' := h
      rw [List.append_cancel_left hpath]

theorem Address.eq_append (h : Address s proto url port path) :
    s = proto ++ 0x3a :: (0x2f :: 0x2f :: (url ++ 0x3a :: (port ++ pathTail path))) := by
  rw [h.parts]
  simp [lit, pathTail]

theorem takeWhile_port (h : ∀ b ∈ port, decDigit b) (path : Option Str) :
    (port ++ pathTail path).takeWhile decDigit = port := by
  refine takeWhile_digits h ?_
  cases path with
  | none => exact fun b hb => by cases hb
  | some p =>
    intro b hb
    obtain rfl : 0x2f = b := Option.some.inj hb
    decide

/-- The parts of an address are determined. -/
theorem Address.unique {proto' url' port' : Str} {path' : Option Str}
    (h : Address s proto url port path) (h' : Address s proto' url' port' path') :
    proto = proto' ∧ url = url' ∧ port = port' ∧ path = path' := by
  have heq := h.eq_append.symm.trans h'.eq_append
  obtain ⟨hproto, hrest⟩ := split_unique (notMem_protos proto h.known)
    (notMem_protos proto' h'.known) heq
  obtain ⟨hurl, hrest⟩ := split_unique h.plain h'.plain (List.cons.inj (List.cons.inj hrest).2).2
  have hport : port = port' := by
    rw [← takeWhile_port h.digits path, hrest, takeWhile_port h'.digits path']
  rw [hport] at hrest
  exact ⟨hproto, hurl, hport, pathTail_injective (List.append_cancel_left hrest)⟩

/-! ## Reading an address -/

/-- The endpoint that is set. -/
def written (endpoint : Endpoint) (proto url path : Str) (port : ℤ) : Endpoint :=
  (((((endpoint.setProto proto).2.setUrl url).setPort (UInt32.ofInt port)).setPath path).setAuthtype
    0x0).2

theorem toNat_ofInt {n : ℕ} (h : n < 2 ^ 31) : (UInt32.ofInt (n : ℤ)).toNat = n := by
  have hmod : ((n : ℤ) % 2 ^ 32).toNat = n := by omega
  rw [UInt32.ofInt, hmod, UInt32.toNat_ofNat_of_lt' (by rw [UInt32.size]; omega)]

/-- What is set are the parts. -/
theorem parts_written (hproto : proto ∈ protos) (hport : decVal port < 2 ^ 31) (path : Str) :
    Parts (written endpoint proto url path (decVal port)) proto url port path := by
  have hset : endpoint.setProto proto =
      (0, { endpoint with proto := proto, proto_mem := .inr hproto }) := dif_pos hproto
  constructor
  · rw [written, hset]
    rfl
  · rfl
  · exact toNat_ofInt hport
  · rfl

/-- The port and the path are what follows the two separators of an address. -/
theorem setEndpoint_split (hproto : 0x3a ∉ proto) (hurl : 0x3a ∉ url) (rest : Str) :
    setEndpoint endpoint (proto ++ lit "://" ++ url ++ lit ":" ++ rest) =
      match stoi rest with
      | .error error => .error error
      | .ok n => .ok (0, written endpoint proto url
          (if findFirstOf rest 0x2f = some 0 then []
            else rest.drop (posAdd (findFirstOf rest 0x2f) 1)) n) := by
  have hsplit : proto ++ lit "://" ++ url ++ lit ":" ++ rest =
      proto ++ 0x3a :: (0x2f :: 0x2f :: (url ++ 0x3a :: rest)) := by
    simp [lit]
  have hfirst := findFirstOf_append hproto (0x2f :: 0x2f :: (url ++ 0x3a :: rest))
  have hsecond := findFirstOf_append hurl rest
  have hdrop : (proto ++ 0x3a :: (0x2f :: 0x2f :: (url ++ 0x3a :: rest))).drop (proto.length + 3) =
      url ++ 0x3a :: rest := by
    rw [List.drop_append]
    simp
  have hdrop' : (url ++ 0x3a :: rest).drop (url.length + 1) = rest := drop_past url 0x3a rest
  rw [hsplit, setEndpoint]
  simp only [hfirst, posAdd, Option.getD_some, hdrop, hsecond, hdrop', List.take_left]
  rfl

variable (endpoint) in
/-- **An address with a path** is read if its port is in range. -/
theorem setEndpoint_path {p : Str} (h : Address s proto url port (some p)) :
    setEndpoint endpoint s =
      if decVal port < 2 ^ 31 then .ok (0, written endpoint proto url p (decVal port))
      else .error .outOfRange := by
  have hstoi : stoi (port ++ 0x2f :: p) =
      if decVal port < 2 ^ 31 then .ok (decVal port : ℤ) else .error .outOfRange :=
    stoi_digits h.nonempty h.digits (by simp; decide)
  have hslash := findFirstOf_append (notMem_digits h.digits (by decide : decDigit 0x2f = false)) p
  have hpos : ¬ some port.length = some 0 := fun heq =>
    h.nonempty (List.length_eq_zero_iff.mp (Option.some.inj heq))
  have hdrop : (port ++ 0x2f :: p).drop (port.length + 1) = p := drop_past port 0x2f p
  have hparts : s = proto ++ lit "://" ++ url ++ lit ":" ++ (port ++ 0x2f :: p) := by
    rw [h.parts]
    simp [lit]
  rw [hparts, setEndpoint_split (notMem_protos proto h.known) h.plain, hslash, if_neg hpos, posAdd,
    hdrop, hstoi]
  split_ifs
  · rfl
  · rfl

variable (endpoint) in
/-- **Without a path**, the port is read as the path too. -/
theorem setEndpoint_noPath (h : Address s proto url port none) :
    setEndpoint endpoint s =
      if decVal port < 2 ^ 31 then .ok (0, written endpoint proto url port (decVal port))
      else .error .outOfRange := by
  have hstoi : stoi port =
      if decVal port < 2 ^ 31 then .ok (decVal port : ℤ) else .error .outOfRange := by
    have hrest : ∀ b ∈ ([] : Str).head?, decDigit b = false := by simp
    have hdigits := stoi_digits h.nonempty h.digits hrest
    rwa [List.append_nil] at hdigits
  have hslash := findFirstOf_of_notMem (notMem_digits h.digits (by decide : decDigit 0x2f = false))
  have hparts : s = proto ++ lit "://" ++ url ++ lit ":" ++ port := by
    rw [h.parts, Option.map_none, Option.getD_none, List.append_nil]
  rw [hparts, setEndpoint_split (notMem_protos proto h.known) h.plain, hslash,
    if_neg (by decide), posAdd, List.drop_zero, hstoi]
  split_ifs
  · rfl
  · rfl

/-- -1 is not returned for any string. -/
theorem setEndpoint_ne (endpoint endpoint' : Endpoint) (s : Str) :
    setEndpoint endpoint s ≠ .ok (-1, endpoint') := by
  unfold setEndpoint
  dsimp only
  split
  · intro h
    cases h
  · intro h
    cases h

/-! ## All strings -/

/-- **An address is read as it should be** exactly when it has a path and a port below 2^31; no
other string is refused. -/
theorem exact_iff : Exact endpoint s ↔
    ∃ proto url port path, Address s proto url port (some path) ∧ decVal port < 2 ^ 31 := by
  constructor
  · intro h
    by_cases hform : ∃ proto url port path, Address s proto url port path
    · obtain ⟨proto, url, port, path, haddress⟩ := hform
      obtain ⟨endpoint', hset, hparts⟩ := h.reads haddress
      cases path with
      | none =>
        rw [setEndpoint_noPath endpoint haddress] at hset
        split_ifs at hset with hport
        cases hset
        exact absurd hparts.path haddress.nonempty
      | some path =>
        rw [setEndpoint_path endpoint haddress] at hset
        split_ifs at hset with hport
        exact ⟨proto, url, port, path, haddress, hport⟩
    · have hrefused := h.refuses fun proto url port path haddress =>
        hform ⟨proto, url, port, path, haddress⟩
      exact absurd hrefused (setEndpoint_ne _ _ _)
  · rintro ⟨proto, url, port, path, haddress, hport⟩
    refine ⟨fun {proto' url' port' path'} haddress' => ?_, fun hnone => ?_⟩
    · obtain ⟨rfl, rfl, rfl, rfl⟩ := haddress.unique haddress'
      exact ⟨_, (setEndpoint_path endpoint haddress).trans (if_pos hport),
        parts_written haddress.known hport path⟩
    · exact absurd haddress (hnone proto url port (some path))

/-- **The port is taken for a path** where there is none. -/
theorem port_as_path : ¬ ∀ (endpoint : Endpoint) (s : Str), Exact endpoint s := by
  intro h
  have hdigits : ∀ b ∈ lit "80", decDigit b :=
    List.all_eq_true.mp (by decide : (lit "80").all decDigit = true)
  have haddress : Address (lit "tcp://h:80") (lit "tcp") (lit "h") (lit "80") none :=
    ⟨rfl, by decide, by decide, by decide, hdigits⟩
  obtain ⟨endpoint', hset, hparts⟩ := (h Endpoint.new _).reads haddress
  have hport : decVal (lit "80") < 2 ^ 31 := by decide +kernel
  rw [setEndpoint_noPath _ haddress, if_pos hport] at hset
  cases hset
  exact absurd hparts.path (by decide)

end Jxtd.Router
