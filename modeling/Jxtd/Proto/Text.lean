import Jxtd.Lib.Framing
import Jxtd.Lib.Rust

/-!
# The texts of a message

A field of type `string` is written as it is; a parser refuses one that is not UTF-8.

* `isText`, `AllText`: strings that are UTF-8.
* `ChecksText`: what a parser does with the strings of a message.
-/

namespace Jxtd.Proto

open Lib

/-- The bytes of a `string`, which are UTF-8. -/
def isText (b : Str) : Bool := (fromUtf8 b).isSome

theorem isText_nil : isText [] = true := by decide

/-- Every one of the strings is UTF-8. -/
def AllText (ts : List Str) : Prop := ∀ t ∈ ts, isText t = true

@[simp] theorem allText_nil : AllText [] := fun _ h => absurd h List.not_mem_nil

@[simp] theorem allText_cons {t : Str} {ts : List Str} :
    AllText (t :: ts) ↔ isText t = true ∧ AllText ts :=
  List.forall_mem_cons

@[simp] theorem allText_append {ts ts' : List Str} :
    AllText (ts ++ ts') ↔ AllText ts ∧ AllText ts' :=
  List.forall_mem_append

theorem allText_flatMap {α : Type} {f : α → List Str} {xs : List α} :
    AllText (xs.flatMap f) ↔ ∀ x ∈ xs, AllText (f x) :=
  List.forall_mem_flatMap

/-- The texts of what is written are those of the parts. -/
theorem allText_flatMap_map {α β : Type} {f : β → List Str} {g : α → List Str} {write : α → β}
    {xs : List α} (h : ∀ x ∈ xs, AllText (f (write x)) ↔ AllText (g x)) :
    AllText ((xs.map write).flatMap f) ↔ AllText (xs.flatMap g) := by
  rw [List.flatMap_map, allText_flatMap, allText_flatMap]
  exact forall₂_congr h

/-- A string that is not written is empty. -/
theorem allText_ite (s : Str) : AllText (if s ≠ [] then some s else none).toList ↔ isText s = true := by
  split_ifs with hs
  · simp
  · simp [not_not.mp hs, isText_nil]

/-- What is serialised is read back, unless one of its strings is not UTF-8: then it does not
parse. -/
structure ChecksText {P : Type} (proto : Protobuf P) (texts : P → List Str) (p : P) : Prop where
  restored : AllText (texts p) → proto.parse (proto.serialize p) = some p
  refused : ¬ AllText (texts p) → proto.parse (proto.serialize p) = none

end Jxtd.Proto
