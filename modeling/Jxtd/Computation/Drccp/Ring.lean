import Jxtd.Computation.Drccp.Server

/-!
# The ring of the virtual nodes

An endpoint has as many virtual nodes on a ring of `2 ^ 32` places as its share asks for. A source
belongs to the endpoint of the first virtual node at or clockwise after its own place.

* `Next`: the first thing at or after a place; **`Next.unique`**, **`exists_next`**.
* `owner`: the endpoint of a place; `owner_eq`: it is what `hashCycle` holds there.
* `Consistent`: the target of a source, and **`select_consistent_iff`**: exactly when
  `selectBestTarget` selects it.
-/

namespace Jxtd.Computation.Drccp

open Lib Std

/-! ## The first thing on a ring -/

section Next

variable {α : Type} {at? : UInt32 → Option α} {code : UInt32} {a b : α}

/-- The first thing at or after a place, going up and past the last place to the first. -/
def Next (at? : UInt32 → Option α) (code : UInt32) (a : α) : Prop :=
  ∃ d, at? (code + d) = some a ∧ ∀ d' < d, at? (code + d') = none

theorem Next.here (h : at? code = some a) : Next at? code a := by
  refine ⟨0, ?_, fun d' hd' => absurd hd' (UInt32.not_lt_zero)⟩
  rwa [UInt32.add_zero]

/-- **There is one first thing.** -/
theorem Next.unique (ha : Next at? code a) (hb : Next at? code b) : a = b := by
  obtain ⟨d, hd, hbefore⟩ := ha
  obtain ⟨d', hd', hbefore'⟩ := hb
  rcases lt_trichotomy d d' with hlt | heq | hgt
  · rw [hbefore' d hlt] at hd
    cases hd
  · subst heq
    rw [hd] at hd'
    exact Option.some.inj hd'
  · rw [hbefore d' hgt] at hd'
    cases hd'

/-- **There is a first thing** as soon as there is anything. -/
theorem exists_next {place : UInt32} (h : at? place ≠ none) (code : UInt32) :
    ∃ a, Next at? code a := by
  have hex : ∃ n, at? (code + UInt32.ofNat n) ≠ none := by
    refine ⟨(place - code).toNat, ?_⟩
    rwa [UInt32.ofNat_toNat, UInt32.add_comm, UInt32.sub_add_cancel]
  classical
  obtain ⟨a, ha⟩ := Option.ne_none_iff_exists'.mp (Nat.find_spec hex)
  refine ⟨a, UInt32.ofNat (Nat.find hex), ha, fun d' hd' => ?_⟩
  have hlt : d'.toNat < Nat.find hex :=
    Nat.lt_of_lt_of_le (UInt32.lt_iff_toNat_lt.mp hd')
      (by rw [UInt32.toNat_ofNat']; exact Nat.mod_le _ _)
  have hnone := Nat.find_min hex hlt
  rwa [UInt32.ofNat_toNat, not_not] at hnone

end Next

/-! ## The virtual nodes -/

variable {φ : Type} [FloatShare φ]

/-- The owner of a place: the first endpoint of the table with a virtual node there. -/
def owner (shares : TreeMap DrccpEndpoint φ) (place : UInt32) : Option DrccpEndpoint :=
  (shares.toList.find? fun e => place ∈ places e.1 e.2).map Prod.fst

theorem find?_flatMap_places (entries : List (DrccpEndpoint × φ)) (place : UInt32) :
    ((entries.flatMap fun e => (places e.1 e.2).map fun p => (p, e.1)).find? fun e =>
      e.1 = place).map Prod.snd = (entries.find? fun e => place ∈ places e.1 e.2).map Prod.fst := by
  induction entries with
  | nil => rfl
  | cons e entries ih =>
    rw [List.flatMap_cons, List.find?_append, List.find?_cons]
    by_cases hmem : place ∈ places e.1 e.2
    · -- the first endpoint with the place has all of its nodes before those of the others
      have hfind : ((places e.1 e.2).map fun p => (p, e.1)).find? (fun e => e.1 = place) =
          some (place, e.1) := by
        rw [List.find?_map]
        have hp : (places e.1 e.2).find? ((fun e : UInt32 × DrccpEndpoint => decide (e.1 = place)) ∘
            fun p => (p, e.1)) = some place := by
          cases hcase : (places e.1 e.2).find? ((fun e : UInt32 × DrccpEndpoint =>
              decide (e.1 = place)) ∘ fun p => (p, e.1)) with
          | none => exact absurd (List.find?_eq_none.mp hcase place hmem) (by simp)
          | some p =>
            have hp := List.find?_some hcase
            simp only [Function.comp_apply, decide_eq_true_eq] at hp
            rw [hp]
        rw [hp, Option.map_some]
      rw [hfind, decide_eq_true hmem, Option.some_or]
      rfl
    · have hfind : ((places e.1 e.2).map fun p => (p, e.1)).find? (fun e => e.1 = place) =
          none := by
        rw [List.find?_eq_none]
        intro x hx
        obtain ⟨p, hp, rfl⟩ := List.mem_map.mp hx
        simp only [decide_eq_true_eq]
        rintro rfl
        exact hmem hp
      rw [hfind, decide_eq_false hmem, Option.none_or]
      exact ih

/-- **What `hashCycle` holds** at a place. -/
theorem owner_eq (shares : TreeMap DrccpEndpoint φ) (place : UInt32) :
    (hashCycle shares)[place]? = owner shares place := by
  rw [hashCycle, get_ofInserts, find?_flatMap_places]
  rfl

/-! ## The target of a source -/

/-- Consistent hashing: the owner of the next virtual node, or the node itself when there is none. -/
def Consistent (ctx : DrccpServerContext φ) (source target : DrccpEndpoint) : Prop :=
  (∀ place, owner ctx.shares place = none) ∧ target = ctx.self ∨
    Next (owner ctx.shares) (hashcode source) target

/-- **A source has one target.** -/
theorem existsUnique_consistent (ctx : DrccpServerContext φ) (source : DrccpEndpoint) :
    ∃! target, Consistent ctx source target := by
  by_cases h : ∀ place, owner ctx.shares place = none
  · refine ⟨ctx.self, .inl ⟨h, rfl⟩, fun target htarget => ?_⟩
    rcases htarget with ⟨-, hself⟩ | ⟨d, hd, -⟩
    · exact hself
    · rw [h] at hd
      cases hd
  · obtain ⟨place, hplace⟩ := not_forall.mp h
    obtain ⟨target, htarget⟩ := exists_next hplace (hashcode source)
    refine ⟨target, .inr htarget, fun target' htarget' => ?_⟩
    rcases htarget' with ⟨hnone, -⟩ | hnext
    · exact absurd hnone h
    · exact hnext.unique htarget

theorem selectBestTarget_eq (ctx : DrccpServerContext φ) (source : DrccpEndpoint) :
    selectBestTarget ctx source = (owner ctx.shares (hashcode source)).getD ctx.self := by
  rw [selectBestTarget, owner_eq]
  cases owner ctx.shares (hashcode source) with
  | some target => rfl
  | none => simp [walk]

/-- **Exactly when the target is selected**: a virtual node stands at the very place of the source, or
there is none, or the next one is the node's own. -/
theorem select_consistent_iff (ctx : DrccpServerContext φ) (source : DrccpEndpoint) :
    Consistent ctx source (selectBestTarget ctx source) ↔
      owner ctx.shares (hashcode source) ≠ none ∨ (∀ place, owner ctx.shares place = none) ∨
        Next (owner ctx.shares) (hashcode source) ctx.self := by
  rw [selectBestTarget_eq]
  cases howner : owner ctx.shares (hashcode source) with
  | some target =>
    refine iff_of_true (.inr (Next.here ?_)) (.inl (Option.some_ne_none _))
    rw [howner, Option.getD_some]
  | none =>
    rw [Option.getD_none, Consistent]
    simp

/-- A node at `a:1` whose forward to itself has failed, and which has met a node at `b:2`. -/
def peerContext : DrccpServerContext ℚ :=
  ⟨lit "a", 1, [], ofInserts [((lit "a", 1), 0), ((lit "b", 2), 1)], none, none⟩

/-- It is reached by a node that was started. -/
theorem run_peerContext :
    run serverStep (start (setup (lit "a") 1 none none))
      [.request ((Message.new.settype .LOCAL).setversion 3), .forwarded (lit "a", 1) none,
        .request (((Message.new.settype .MEET).setversion 3).setsrc (lit "b", 2))] =
      .ok ⟨peerContext, ⟨lit "a", 1⟩⟩ :=
  rfl

theorem nodeLimit_one : FloatShare.nodeLimit (1 : ℚ) = 4 := by
  have h : ((1 : ℚ) * 4) = 4 := by norm_num
  show Int32.ofInt (((1 : ℚ) * 4).num.tdiv ((1 : ℚ) * 4).den) = 4
  rw [h]
  rfl

theorem places_peer : places (lit "b", 2) (1 : ℚ) =
    [0x60, 0x4000005f, 0x8000005e, 0xc000005d] := by
  rw [places, nodeLimit_one]
  decide

theorem owner_peerContext (place : UInt32) : owner peerContext.shares place =
    if place ∈ places (lit "b", 2) (1 : ℚ) then some (lit "b", 2) else none := by
  have hlist : peerContext.shares.toList = [((lit "a", 1), 0), ((lit "b", 2), 1)] := by decide
  have hself : place ∉ places (lit "a", 1) (0 : ℚ) := fun hplace =>
    nodeLimit_ne_zero hplace FloatShare.nodeLimit_zero
  rw [owner, hlist, List.find?_cons, decide_eq_false hself, List.find?_singleton]
  by_cases h : place ∈ places (lit "b", 2) (1 : ℚ) <;> simp [h]

/-- **A source between two virtual nodes**: the node selects itself. -/
theorem select_own_address :
    ¬ ∀ (ctx : DrccpServerContext ℚ) (source : DrccpEndpoint),
      Consistent ctx source (selectBestTarget ctx source) := by
  intro h
  rcases (select_consistent_iff peerContext (lit "c", 2)).mp (h _ _) with hhere | hnone | ⟨d, hd, -⟩
  · rw [owner_peerContext, places_peer] at hhere
    exact hhere (by decide)
  · have hplace := hnone 0x60
    rw [owner_peerContext, places_peer] at hplace
    cases hplace
  · rw [owner_peerContext] at hd
    split_ifs at hd
    cases hd

end Jxtd.Computation.Drccp
