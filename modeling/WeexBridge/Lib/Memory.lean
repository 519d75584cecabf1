/-
# `Memory` — a fixed block of cells and bounded stores into it

A block is the list of its cells; its length never changes.  `store` writes
consecutive cells and answers `none` when one of them lies outside, so "the run
gives `some`" is "no write is out of bounds".  What was in the cells before is
arbitrary and stays where nothing is written.
-/
import Mathlib.Data.List.Basic
import Mathlib.Tactic.Common

namespace Memory

variable {α : Type}

/-- The cells of an allocation. -/
abbrev Block (α : Type) := List α

/-- An allocation of `size` cells whose contents are whatever `fill` says. -/
def allocate (fill : Nat → α) (size : Nat) : Block α := (List.range size).map fill

@[simp] theorem length_allocate (fill : Nat → α) (size : Nat) :
    (allocate fill size).length = size := by
  simp [allocate]

/-- `m` with the cells from `p` on replaced by `xs`. -/
def splice (m : Block α) (p : Nat) (xs : List α) : Block α :=
  m.take p ++ xs ++ m.drop (p + xs.length)

/-- Writes `xs` into `m` from cell `p` on, if it fits. -/
def store (m : Block α) (p : Nat) (xs : List α) : Option (Block α) :=
  if p + xs.length ≤ m.length then some (splice m p xs) else none

theorem store_eq_some {m : Block α} {p : Nat} {xs : List α} (h : p + xs.length ≤ m.length) :
    store m p xs = some (splice m p xs) := if_pos h

theorem length_splice {m : Block α} {p : Nat} {xs : List α} (h : p + xs.length ≤ m.length) :
    (splice m p xs).length = m.length := by
  simp only [splice, List.length_append, List.length_take, List.length_drop]
  omega

/-- The cells up to the end of a store: the old ones, then the new. -/
theorem take_splice {m : Block α} {p : Nat} {xs : List α} (h : p ≤ m.length) :
    (splice m p xs).take (p + xs.length) = m.take p ++ xs := by
  have hl : (m.take p ++ xs).length = p + xs.length := by
    rw [List.length_append, List.length_take]
    omega
  rw [splice, ← hl, List.take_left]

/-- The cells before a store are not touched. -/
theorem take_splice_before {m : Block α} {p q : Nat} {xs : List α} (hq : q ≤ p)
    (h : p ≤ m.length) : (splice m p xs).take q = m.take q := by
  rw [splice, List.append_assoc, List.take_append_of_le_length (by rw [List.length_take]; omega),
    List.take_take, Nat.min_eq_left hq]

/-- Two adjacent stores are one, in either order. -/
theorem splice_append (m : Block α) (p : Nat) (xs ys : List α)
    (h : p + (xs ++ ys).length ≤ m.length) :
    splice (splice m p xs) (p + xs.length) ys = splice m p (xs ++ ys) := by
  rw [List.length_append] at h
  have hl : (m.take p ++ xs).length = p + xs.length := by
    rw [List.length_append, List.length_take]
    omega
  have hd : (splice m p xs).drop (p + xs.length + ys.length) =
      m.drop (p + (xs ++ ys).length) := by
    rw [← List.drop_drop, splice, List.drop_left' hl, List.drop_drop, List.length_append]
    congr 1
    omega
  rw [splice, take_splice (by omega), hd, splice]
  simp only [List.append_assoc]

theorem splice_append' (m : Block α) (p : Nat) (xs ys : List α)
    (h : p + (xs ++ ys).length ≤ m.length) :
    splice (splice m (p + xs.length) ys) p xs = splice m p (xs ++ ys) := by
  rw [List.length_append] at h
  have hl : (m.take (p + xs.length)).length = p + xs.length := by
    rw [List.length_take]
    omega
  have hd : (splice m (p + xs.length) ys).drop (p + xs.length) =
      ys ++ m.drop (p + xs.length + ys.length) := by
    rw [splice, List.append_assoc, List.drop_left' hl]
  rw [splice, take_splice_before (by omega) (by omega), hd, splice]
  simp only [List.append_assoc, List.length_append, Nat.add_assoc]

end Memory
