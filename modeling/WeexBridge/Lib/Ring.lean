/-
# A stack in a ring of cells

A stack that is kept in a fixed number of cells forgets its bottom.  The item of a level
lies in the cell that the level is modulo the size, until something is pushed so many
levels higher.

    store    an item at a level
    Holds    the items that have not been written over
-/
import Mathlib.Data.Nat.ModEq

namespace Ring

variable {α : Type} {size high level : Nat} {cells : Nat → Option α} {items : List α}

/-- The cells once an item lies at the level. -/
def store (size level : Nat) (item : α) (cells : Nat → Option α) : Nat → Option α :=
  fun i => if i = level % size then some item else cells i

/-- The items, the top first, lie in their cells as far as they are less than `size` levels
below the highest level that was in use. -/
def Holds (size high : Nat) (cells : Nat → Option α) : List α → Prop
  | [] => True
  | item :: items =>
      (high ≤ items.length + size → cells (items.length % size) = some item) ∧
        Holds size high cells items

theorem mod_ne_mod {i j : Nat} (hlt : i < j) (hnear : j < i + size) : i % size ≠ j % size := by
  intro h
  have hdvd : size ∣ j - i := (Nat.modEq_iff_dvd' (Nat.le_of_lt hlt)).mp h
  have hle : size ≤ j - i := Nat.le_of_dvd (Nat.sub_pos_of_lt hlt) hdvd
  omega

@[simp] theorem store_self (item : α) : store size level item cells (level % size) = some item :=
  if_pos rfl

theorem Holds.top {item : α} (h : Holds size high cells (item :: items))
    (hhigh : high ≤ items.length + size) : cells (items.length % size) = some item :=
  h.1 hhigh

theorem Holds.tail {item : α} (h : Holds size high cells (item :: items)) :
    Holds size high cells items :=
  h.2

/-- What is stored above the items leaves those that are still held. -/
theorem Holds.store_above (item : α) {high' : Nat} (hhigh : high ≤ high') (hlevel : level < high')
    (habove : items.length ≤ level) (h : Holds size high cells items) :
    Holds size high' (store size level item cells) items := by
  induction items with
  | nil => trivial
  | cons top items ih =>
      rw [List.length_cons] at habove
      refine ⟨?_, ih (by omega) h.tail⟩
      intro hheld
      have hne : items.length % size ≠ level % size := mod_ne_mod (by omega) (by omega)
      unfold store
      rw [if_neg hne]
      exact h.top (Nat.le_trans hhigh hheld)

/-- One level more. -/
theorem Holds.push (item : α) {high' : Nat} (hhigh : high ≤ high') (hlevel : items.length < high')
    (h : Holds size high cells items) :
    Holds size high' (store size items.length item cells) (item :: items) :=
  ⟨fun _ => store_self item, h.store_above item hhigh hlevel (Nat.le_refl _)⟩

end Ring
