/-
# Open addressing

A table is a list of cells.  An element is looked for in the cells that the probes of its
hash visit: the distances between them are one, two, three and so on, and in a table of a
power of two they visit every cell.  A cell that has held an element never becomes empty
again, so that a walk goes on over it.

    probe       the cells that are visited
    StopsAt     where a walk ends
    Hashed      every element is where a walk finds it
-/
import Mathlib.Data.Fintype.EquivFin
import Mathlib.Data.List.Perm.Basic
import Mathlib.Data.Nat.ModEq
import Mathlib.Data.Nat.Prime.Basic
import Mathlib.Tactic.Ring

namespace Probing

/-! ## Probes -/

section
variable {size hash k : Nat}

def triangle (n : Nat) : Nat := n * (n + 1) / 2

/-- The `n`-th cell that is visited. -/
def probe (size hash n : Nat) : Nat := (hash + triangle n) % size

theorem two_mul_triangle (n : Nat) : 2 * triangle n = n * (n + 1) :=
  Nat.two_mul_div_two_of_even (Nat.even_mul_succ_self n)

theorem triangle_succ (n : Nat) : triangle (n + 1) = triangle n + (n + 1) := by
  have h := two_mul_triangle n
  have h' := two_mul_triangle (n + 1)
  have hsum : (n + 1) * (n + 1 + 1) = n * (n + 1) + 2 * (n + 1) := by ring
  omega

theorem probe_zero : probe size hash 0 = hash % size := rfl

theorem probe_succ (n : Nat) : probe size hash (n + 1) = (probe size hash n + (n + 1)) % size := by
  rw [probe, probe, triangle_succ, Nat.mod_add_mod, Nat.add_assoc]

theorem probe_lt (hpos : 0 < size) (n : Nat) : probe size hash n < size := Nat.mod_lt _ hpos

/-- Of two factors whose sum is odd only one is even. -/
theorem two_pow_dvd_factor {d e : Nat} (hodd : (d + e) % 2 = 1) (h : 2 ^ k ∣ d * e) :
    2 ^ k ∣ d ∨ 2 ^ k ∣ e := by
  have hcoprime : ∀ m : Nat, m % 2 = 1 → Nat.Coprime (2 ^ k) m := fun m hm =>
    Nat.Coprime.pow_left k (Nat.coprime_two_left.mpr (Nat.odd_iff.mpr hm))
  rcases Nat.mod_two_eq_zero_or_one d with hd | hd
  · exact .inl ((hcoprime e (by omega)).dvd_of_dvd_mul_right h)
  · exact .inr ((hcoprime d hd).dvd_of_dvd_mul_left h)

theorem probe_ne_of_lt {i j : Nat} (hij : i < j) (hj : j < 2 ^ k) :
    probe (2 ^ k) hash i ≠ probe (2 ^ k) hash j := by
  intro h
  obtain ⟨d, rfl⟩ := Nat.exists_eq_add_of_lt hij
  have hmod : triangle i ≡ triangle (i + d + 1) [MOD 2 ^ k] := Nat.ModEq.add_left_cancel' hash h
  have hi := two_mul_triangle i
  have hj' := two_mul_triangle (i + d + 1)
  have hproduct : (i + d + 1) * (i + d + 1 + 1) = i * (i + 1) + (d + 1) * (2 * i + d + 2) := by
    ring
  have hdvd : 2 ^ k ∣ triangle (i + d + 1) - triangle i :=
    (Nat.modEq_iff_dvd' (by omega)).mp hmod
  have hfactors : 2 ^ (k + 1) ∣ (d + 1) * (2 * i + d + 2) := by
    have hdouble := Nat.mul_dvd_mul_left 2 hdvd
    rw [Nat.pow_succ, Nat.mul_comm]
    have heq : (d + 1) * (2 * i + d + 2) = 2 * (triangle (i + d + 1) - triangle i) := by omega
    rwa [heq]
  rcases two_pow_dvd_factor (by omega) hfactors with hle | hle
  · have := Nat.le_of_dvd (by omega) hle
    rw [Nat.pow_succ] at this
    omega
  · have := Nat.le_of_dvd (by omega) hle
    rw [Nat.pow_succ] at this
    omega

theorem eq_of_probe_eq {i j : Nat} (hi : i < 2 ^ k) (hj : j < 2 ^ k)
    (h : probe (2 ^ k) hash i = probe (2 ^ k) hash j) : i = j := by
  rcases Nat.lt_trichotomy i j with hlt | heq | hgt
  · exact absurd h (probe_ne_of_lt hlt hj)
  · exact heq
  · exact absurd h.symm (probe_ne_of_lt hgt hi)

/-- The probes visit every cell. -/
theorem exists_probe_eq (hash : Nat) {c : Nat} (hc : c < 2 ^ k) :
    ∃ n < 2 ^ k, probe (2 ^ k) hash n = c := by
  have hpos : 0 < 2 ^ k := Nat.two_pow_pos k
  let visit : Fin (2 ^ k) → Fin (2 ^ k) := fun n => ⟨probe (2 ^ k) hash n, probe_lt hpos n⟩
  have hinjective : Function.Injective visit := fun i j h =>
    Fin.ext (eq_of_probe_eq i.isLt j.isLt (congrArg Fin.val h))
  obtain ⟨n, hn⟩ := Finite.surjective_of_injective hinjective ⟨c, hc⟩
  exact ⟨n, n.isLt, congrArg Fin.val hn⟩

end

/-! ## Walks -/

section
variable {size hash k : Nat} {stops : Nat → Prop}

/-- The walk ends after so many steps in the first cell at which it stops. -/
structure StopsAt (size hash : Nat) (stops : Nat → Prop) (n c : Nat) : Prop where
  inside : n < size
  reached : probe size hash n = c
  stopped : stops c
  before : ∀ m < n, ¬ stops (probe size hash m)

theorem exists_stopsAt (hash : Nat) {c : Nat} (hc : c < 2 ^ k) (hstops : stops c) :
    ∃ n c, StopsAt (2 ^ k) hash stops n c := by
  classical
  obtain ⟨n, hn, rfl⟩ := exists_probe_eq hash hc
  have hexists : ∃ n, stops (probe (2 ^ k) hash n) := ⟨n, hstops⟩
  refine ⟨Nat.find hexists, _, ?_, rfl, Nat.find_spec hexists, fun m => Nat.find_min hexists⟩
  exact Nat.lt_of_le_of_lt (Nat.find_min' hexists hstops) hn

theorem probe_congr {hash' : Nat} (h : hash % size = hash' % size) (n : Nat) :
    probe size hash n = probe size hash' n := Nat.ModEq.add_right (triangle n) h

end

/-! ## Tables -/

inductive Cell (α : Type) where
  | empty
  | deleted
  | full (element : α)
  deriving DecidableEq, Repr

section
variable {α : Type}

def Cell.element? : Cell α → Option α
  | .full a => some a
  | _ => none

def Cell.isEmpty : Cell α → Bool
  | .empty => true
  | _ => false

def Cell.isDeleted : Cell α → Bool
  | .deleted => true
  | _ => false

def elements (cells : List (Cell α)) : List α := cells.filterMap Cell.element?

/-- A walk gets to the cell, if it stops at empty cells only. -/
def Reaches (cells : List (Cell α)) (hash c : Nat) : Prop :=
  ∃ n, probe cells.length hash n = c ∧
    ∀ m < n, cells[probe cells.length hash m]? ≠ some Cell.empty

def Hashed (hash : α → Nat) (cells : List (Cell α)) : Prop :=
  ∀ c a, cells[c]? = some (Cell.full a) → Reaches cells (hash a) c

/-- An element may be put here. -/
def Free (cells : List (Cell α)) (c : Nat) : Prop :=
  cells[c]? = some Cell.empty ∨ cells[c]? = some Cell.deleted

/-- A search for what matches ends here. -/
def Decides (cells : List (Cell α)) (matching : α → Prop) (c : Nat) : Prop :=
  cells[c]? = some Cell.empty ∨ ∃ a, cells[c]? = some (Cell.full a) ∧ matching a

variable {hash : α → Nat} {cells cells' : List (Cell α)} {a : α} {c n : Nat}

theorem mem_elements : a ∈ elements cells ↔ ∃ c : Nat, cells[c]? = some (Cell.full a) := by
  unfold elements
  rw [List.mem_filterMap]
  constructor
  · rintro ⟨cell, hmem, hcell⟩
    obtain ⟨c, hc⟩ := List.mem_iff_getElem?.mp hmem
    cases cell with
    | full b =>
        cases hcell
        exact ⟨c, hc⟩
    | _ => cases hcell
  · rintro ⟨c, hc⟩
    exact ⟨Cell.full a, List.mem_of_getElem? hc, rfl⟩

/-- Elements may be taken out, or hashed in another way with the same result. -/
theorem Hashed.mono {hash' : α → Nat} (h : Hashed hash cells)
    (hlength : cells'.length = cells.length)
    (hfull : ∀ {c : Nat} {a : α}, cells'[c]? = some (Cell.full a) →
      cells[c]? = some (Cell.full a) ∧ hash' a = hash a)
    (hempty : ∀ {c : Nat}, cells'[c]? = some Cell.empty → cells[c]? = some Cell.empty) :
    Hashed hash' cells' := by
  intro c a hc
  obtain ⟨hc, hhash⟩ := hfull hc
  obtain ⟨n, hn, hbefore⟩ := h c a hc
  rw [← hhash, ← hlength] at hn hbefore
  exact ⟨n, hn, fun m hm hstop => hbefore m hm (hempty hstop)⟩

/-- An element is put into the first free cell of its walk. -/
theorem Hashed.insert (h : Hashed hash cells)
    (hstops : StopsAt cells.length (hash a) (Free cells) n c) :
    Hashed hash (cells.set c (Cell.full a)) := by
  have hlt : c < cells.length := by
    rw [← hstops.reached]
    exact probe_lt (Nat.lt_of_le_of_lt (Nat.zero_le _) hstops.inside) n
  have hset : ∀ {i : Nat}, (cells.set c (Cell.full a))[i]? = some Cell.empty →
      cells[i]? = some Cell.empty := by
    intro i hi
    by_cases heq : c = i
    · subst heq
      rw [List.getElem?_set_self hlt] at hi
      cases hi
    · rwa [List.getElem?_set_ne heq] at hi
  intro i b hi
  by_cases heq : c = i
  · subst heq
    rw [List.getElem?_set_self hlt] at hi
    cases hi
    unfold Reaches
    rw [List.length_set]
    exact ⟨n, hstops.reached, fun m hm hempty => hstops.before m hm (.inl (hset hempty))⟩
  · rw [List.getElem?_set_ne heq] at hi
    obtain ⟨m, hm, hbefore⟩ := h i b hi
    unfold Reaches
    rw [List.length_set]
    exact ⟨m, hm, fun l hl hempty => hbefore l hl (hset hempty)⟩

/-- A search that ends in an empty cell has missed nothing. -/
theorem Hashed.not_matching (h : Hashed hash cells) {matching : α → Prop} {wanted : Nat}
    (hwanted : ∀ a ∈ elements cells, matching a → hash a % cells.length = wanted % cells.length)
    (hstops : StopsAt cells.length wanted (Decides cells matching) n c)
    (hempty : cells[c]? = some Cell.empty) : ∀ a ∈ elements cells, ¬ matching a := by
  intro a ha hmatching
  obtain ⟨i, hi⟩ := mem_elements.mp ha
  obtain ⟨m, hm, hbefore⟩ := h i a hi
  have hprobe := fun j => probe_congr (hwanted a ha hmatching) j
  rw [hprobe] at hm
  rcases Nat.lt_trichotomy m n with hlt | rfl | hgt
  · refine hstops.before m hlt (.inr ⟨a, ?_, hmatching⟩)
    rw [hm, hi]
  · have hsame := hstops.reached.symm.trans hm
    rw [← hsame, hempty] at hi
    cases hi
  · refine hbefore n hgt ?_
    rw [hprobe, hstops.reached, hempty]

/-! ### Counting -/

def emptyCells (cells : List (Cell α)) : Nat := cells.countP Cell.isEmpty

def deletedCells (cells : List (Cell α)) : Nat := cells.countP Cell.isDeleted

theorem counts_eq (cells : List (Cell α)) :
    emptyCells cells + deletedCells cells + (elements cells).length = cells.length := by
  unfold emptyCells deletedCells elements
  induction cells with
  | nil => rfl
  | cons cell cells ih =>
      rw [List.countP_cons, List.countP_cons, List.length_cons, ← ih]
      generalize cells.countP Cell.isEmpty = empty, cells.countP Cell.isDeleted = deleted
      cases cell with
      | empty =>
          change empty + 1 + (deleted + 0) + (cells.filterMap Cell.element?).length = _
          omega
      | deleted =>
          change empty + 0 + (deleted + 1) + (cells.filterMap Cell.element?).length = _
          omega
      | full => rfl

theorem exists_empty (h : 0 < emptyCells cells) :
    ∃ c < cells.length, cells[c]? = some Cell.empty := by
  obtain ⟨cell, hmem, hcell⟩ := List.countP_pos_iff.mp h
  obtain ⟨c, hc⟩ := List.mem_iff_getElem?.mp hmem
  cases cell with
  | empty => exact ⟨c, (List.getElem?_eq_some_iff.mp hc).1, hc⟩
  | _ => cases hcell

theorem set_eq (hlt : c < cells.length) (cell : Cell α) :
    cells.set c cell = cells.take c ++ cell :: cells.drop (c + 1) := by
  rw [List.set_eq_take_append_cons_drop, if_pos hlt]

theorem split_eq {cell : Cell α} (hc : cells[c]? = some cell) :
    cells = cells.take c ++ cell :: cells.drop (c + 1) := by
  obtain ⟨hlt, rfl⟩ := List.getElem?_eq_some_iff.mp hc
  rw [← List.drop_eq_getElem_cons hlt, List.take_append_drop]

theorem elements_insert (hfree : Free cells c) :
    (elements (cells.set c (Cell.full a))).Perm (a :: elements cells) ∧
      deletedCells (cells.set c (Cell.full a)) ≤ deletedCells cells := by
  have hinsert : ∀ cell, cells[c]? = some cell → cell.element? = none →
      (elements (cells.set c (Cell.full a))).Perm (a :: elements cells) ∧
        deletedCells (cells.set c (Cell.full a)) ≤ deletedCells cells := by
    intro cell hc hcell
    have hsplit := split_eq hc
    rw [set_eq (List.getElem?_eq_some_iff.mp hc).1]
    unfold elements deletedCells
    constructor
    · conv_rhs => rw [hsplit]
      have hfull : (Cell.full a).element? = some a := rfl
      rw [List.filterMap_append, List.filterMap_append, List.filterMap_cons_none hcell,
        List.filterMap_cons_some hfull]
      exact List.perm_middle
    · conv_rhs => rw [hsplit]
      rw [List.countP_append, List.countP_append, List.countP_cons, List.countP_cons]
      exact Nat.add_le_add_left (Nat.add_le_add_left (Nat.zero_le _) _) _
  rcases hfree with h | h
  · exact hinsert _ h rfl
  · exact hinsert _ h rfl

theorem exists_free (h : 0 < emptyCells cells) {k : Nat} (hsize : cells.length = 2 ^ k)
    (wanted : Nat) : ∃ n c, StopsAt cells.length wanted (Free cells) n c := by
  obtain ⟨c, hc, hempty⟩ := exists_empty h
  rw [hsize] at hc ⊢
  exact exists_stopsAt wanted hc (.inl hempty)

theorem exists_decided (h : 0 < emptyCells cells) {k : Nat} (hsize : cells.length = 2 ^ k)
    (matching : α → Prop) (wanted : Nat) :
    ∃ n c, StopsAt cells.length wanted (Decides cells matching) n c := by
  obtain ⟨c, hc, hempty⟩ := exists_empty h
  rw [hsize] at hc ⊢
  exact exists_stopsAt wanted hc (.inl hempty)

/-! ### Taking elements out -/

def Cell.retain (keep : α → Bool) : Cell α → Cell α
  | .full a => if keep a then .full a else .deleted
  | cell => cell

/-- The cells with the elements that are kept. -/
def retain (keep : α → Bool) (cells : List (Cell α)) : List (Cell α) :=
  cells.map (Cell.retain keep)

section
variable (keep : α → Bool)

@[simp] theorem length_retain (cells : List (Cell α)) : (retain keep cells).length = cells.length :=
  List.length_map _

theorem elements_retain (cells : List (Cell α)) :
    elements (retain keep cells) = (elements cells).filter keep := by
  unfold elements retain
  rw [List.filterMap_map, List.filter_filterMap]
  refine congrArg (fun f => cells.filterMap f) (funext fun cell => ?_)
  cases cell with
  | full a => cases hkeep : keep a <;> simp [Cell.retain, Cell.element?, hkeep, Option.filter]
  | _ => rfl

theorem emptyCells_retain (cells : List (Cell α)) :
    emptyCells (retain keep cells) = emptyCells cells := by
  unfold emptyCells retain
  rw [List.countP_map]
  refine congrArg (fun p => cells.countP p) (funext fun cell => ?_)
  cases cell with
  | full a => cases hkeep : keep a <;> simp [Cell.retain, Cell.isEmpty, hkeep]
  | _ => rfl

theorem Hashed.retain (h : Hashed hash cells) : Hashed hash (retain keep cells) := by
  have hcell : ∀ {c : Nat} {cell : Cell α}, (Probing.retain keep cells)[c]? = some cell →
      ∃ old, cells[c]? = some old ∧ old.retain keep = cell := by
    intro c cell hc
    rw [Probing.retain, List.getElem?_map] at hc
    exact Option.map_eq_some_iff.mp hc
  refine h.mono (length_retain keep cells) ?_ ?_
  · intro c a hc
    obtain ⟨old, hold, hretain⟩ := hcell hc
    cases old with
    | full b =>
        unfold Cell.retain at hretain
        dsimp only at hretain
        split_ifs at hretain
        cases hretain
        exact ⟨hold, rfl⟩
    | _ => cases hretain
  · intro c hc
    obtain ⟨old, hold, hretain⟩ := hcell hc
    cases old with
    | full b =>
        unfold Cell.retain at hretain
        dsimp only at hretain
        split_ifs at hretain
    | deleted => cases hretain
    | empty => exact hold

end

end

end Probing
