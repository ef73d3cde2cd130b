import Mathlib.Data.List.AList
import Mathlib.Data.Finset.Card
import Mathlib.Order.Interval.Finset.Nat
import Mathlib.Tactic.Common

/-!
# Connections and their descriptors

The descriptors of a process that accepts connections: a new connection gets the lowest one that is
not in use, and a descriptor that was closed is used again. The connections are numbered.

* `Sockets`: the descriptors in use, and the connections behind them.
* `lowest`, **`lowest_lt_iff`**: the lowest descriptor is small as long as there is room.
* `accept`, `close`: the operations; `lookup_accept_ne`, `lookup_close_ne`: what they leave alone.
-/

namespace Lib

/-- The lowest number that is not in use. -/
def lowest (used : Finset ℕ) : ℕ :=
  ((List.range (used.card + 1)).find? fun i => decide (i ∉ used)).getD 0

theorem lowest_spec (used : Finset ℕ) : lowest used ∉ used ∧ ∀ i < lowest used, i ∈ used := by
  unfold lowest
  cases hfind : (List.range (used.card + 1)).find? fun i => decide (i ∉ used) with
  | none =>
    have hall : Finset.range (used.card + 1) ⊆ used := by
      intro i hi
      have hin := List.find?_eq_none.mp hfind i (List.mem_range.mpr (Finset.mem_range.mp hi))
      simpa using hin
    have hcard := Finset.card_le_card hall
    rw [Finset.card_range] at hcard
    omega
  | some i =>
    obtain ⟨hi, -, hbefore⟩ := List.find?_range_eq_some.mp hfind
    refine ⟨of_decide_eq_true hi, fun j hj => ?_⟩
    have hin := hbefore j hj
    simpa using hin

theorem lowest_notMem (used : Finset ℕ) : lowest used ∉ used := (lowest_spec used).1

/-- **There is room below a bound** exactly when not all numbers below it are in use. -/
theorem lowest_lt_iff (used : Finset ℕ) (n : ℕ) :
    lowest used < n ↔ (used.filter (· < n)).card < n := by
  have hsub : used.filter (· < n) ⊆ Finset.range n := by
    intro i hi
    rw [Finset.mem_range]
    exact (Finset.mem_filter.mp hi).2
  constructor
  · intro h
    have hne : used.filter (· < n) ≠ Finset.range n := by
      intro heq
      have hmem : lowest used ∈ used.filter (· < n) := by
        rw [heq, Finset.mem_range]
        exact h
      exact lowest_notMem used (Finset.mem_filter.mp hmem).1
    have hlt := Finset.card_lt_card (hsub.ssubset_of_ne hne)
    rwa [Finset.card_range] at hlt
  · intro h
    by_contra hle
    have hall : Finset.range n ⊆ used.filter (· < n) := by
      intro i hi
      rw [Finset.mem_range] at hi
      exact Finset.mem_filter.mpr ⟨(lowest_spec used).2 i (lt_of_lt_of_le hi (not_lt.mp hle)), hi⟩
    have hcard := Finset.card_le_card hall
    rw [Finset.card_range] at hcard
    omega

/-- The descriptors that the process holds otherwise, and those of its connections. -/
structure Sockets where
  others : Finset ℕ
  conns : AList fun _ : ℕ => ℕ
  /-- How many connections there have been. -/
  count : ℕ
  apart : ∀ fd ∈ conns, fd ∉ others
  fresh : ∀ fd c, conns.lookup fd = some c → c < count
  distinct : ∀ fd fd' c, conns.lookup fd = some c → conns.lookup fd' = some c → fd = fd'

namespace Sockets

/-- Without connections. -/
def none (others : Finset ℕ) : Sockets where
  others := others
  conns := ∅
  count := 0
  apart _ h := absurd h (AList.notMem_empty _)
  fresh _ _ h := nomatch h
  distinct _ _ _ h := nomatch h

variable (s : Sockets) {fd fd' : ℕ}

/-- The connection behind a descriptor. -/
def lookup (fd : ℕ) : Option ℕ := s.conns.lookup fd

/-- The descriptors in use. -/
def used : Finset ℕ := s.others ∪ s.conns.keys.toFinset

theorem mem_used : fd ∈ s.used ↔ fd ∈ s.others ∨ fd ∈ s.conns := by
  rw [used, Finset.mem_union, List.mem_toFinset, AList.mem_keys]

theorem notMem_lowest : lowest s.used ∉ s.others ∧ lowest s.used ∉ s.conns :=
  not_or.mp fun h => lowest_notMem s.used (s.mem_used.mpr h)

/-- A new connection. -/
def accept : Sockets where
  others := s.others
  conns := s.conns.insert (lowest s.used) s.count
  count := s.count + 1
  apart fd h := by
    rcases (AList.mem_insert _).mp h with rfl | h
    · exact s.notMem_lowest.1
    · exact s.apart fd h
  fresh fd c h := by
    by_cases heq : fd = lowest s.used
    · rw [heq, AList.lookup_insert] at h
      cases h
      exact Nat.lt_succ_self _
    · rw [AList.lookup_insert_ne heq] at h
      exact (s.fresh fd c h).trans (Nat.lt_succ_self _)
  distinct fd fd' c h h' := by
    by_cases heq : fd = lowest s.used
    · by_cases heq' : fd' = lowest s.used
      · rw [heq, heq']
      · rw [heq, AList.lookup_insert] at h
        rw [AList.lookup_insert_ne heq'] at h'
        cases h
        exact absurd (s.fresh fd' _ h') (lt_irrefl _)
    · rw [AList.lookup_insert_ne heq] at h
      by_cases heq' : fd' = lowest s.used
      · rw [heq', AList.lookup_insert] at h'
        cases h'
        exact absurd (s.fresh fd _ h) (lt_irrefl _)
      · rw [AList.lookup_insert_ne heq'] at h'
        exact s.distinct fd fd' c h h'

/-- The connection of a descriptor is closed. -/
def close (fd : ℕ) : Sockets where
  others := s.others
  conns := s.conns.erase fd
  count := s.count
  apart fd' h := s.apart fd' (AList.mem_erase.mp h).2
  fresh fd' c h := by
    by_cases heq : fd' = fd
    · rw [heq, AList.lookup_erase] at h
      cases h
    · rw [AList.lookup_erase_ne heq] at h
      exact s.fresh fd' c h
  distinct fd₁ fd₂ c h₁ h₂ := by
    by_cases heq₁ : fd₁ = fd
    · rw [heq₁, AList.lookup_erase] at h₁
      cases h₁
    · by_cases heq₂ : fd₂ = fd
      · rw [heq₂, AList.lookup_erase] at h₂
        cases h₂
      · rw [AList.lookup_erase_ne heq₁] at h₁
        rw [AList.lookup_erase_ne heq₂] at h₂
        exact s.distinct fd₁ fd₂ c h₁ h₂

variable {s}

theorem lookup_accept_ne (h : fd ≠ lowest s.used) : s.accept.lookup fd = s.lookup fd :=
  AList.lookup_insert_ne h

theorem lookup_close_ne (h : fd' ≠ fd) : (s.close fd).lookup fd' = s.lookup fd' :=
  AList.lookup_erase_ne h

/-- A descriptor in use is not the next one. -/
theorem ne_lowest {c : ℕ} (h : s.lookup fd = some c) : fd ≠ lowest s.used := by
  rintro rfl
  exact s.notMem_lowest.2 (AList.lookup_isSome.mp (by rw [← lookup, h]; rfl))

end Sockets

end Lib
