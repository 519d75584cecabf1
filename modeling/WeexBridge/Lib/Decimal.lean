/-
# `Decimal` — numerals without leading zeros

Numerals are lists of UTF-16 code units.  Every natural number has one, and what is read
from it is the number; a text is the numeral of a number if it consists of digits and
does not begin with a zero that it could do without.
-/
import Mathlib.Algebra.Group.Nat.Defs
import Mathlib.Data.List.TakeWhile
import Mathlib.Tactic.Common

namespace Decimal

/-! ## Digits -/

def isDigit (c : UInt16) : Bool := 0x30 ≤ c && c ≤ 0x39

theorem isDigit_iff {c : UInt16} : isDigit c = true ↔ 0x30 ≤ c ∧ c ≤ 0x39 := by
  simp only [isDigit, Bool.and_eq_true, decide_eq_true_eq]

def Digits (t : List UInt16) : Prop := ∀ c ∈ t, isDigit c = true

theorem Digits.cons {c : UInt16} {t : List UInt16} (hc : isDigit c = true) (ht : Digits t) :
    Digits (c :: t) := by
  intro d hd
  rcases List.mem_cons.mp hd with rfl | hd
  · exact hc
  · exact ht d hd

theorem Digits.tail {c : UInt16} {t : List UInt16} (h : Digits (c :: t)) : Digits t :=
  fun d hd => h d (List.mem_cons_of_mem c hd)

/-- The text does not begin with a digit. -/
def NoDigit (t : List UInt16) : Prop := ∀ c, t.head? = some c → isDigit c = false

theorem dropWhile_of_noDigit {t : List UInt16} (h : NoDigit t) : t.dropWhile isDigit = t := by
  cases t with
  | nil => rfl
  | cons c t => exact List.dropWhile_cons_of_neg (by rw [h c rfl]; exact Bool.false_ne_true)

theorem takeWhile_of_noDigit {t : List UInt16} (h : NoDigit t) : t.takeWhile isDigit = [] := by
  cases t with
  | nil => rfl
  | cons c t => exact List.takeWhile_cons_of_neg (by rw [h c rfl]; exact Bool.false_ne_true)

theorem dropWhile_digits {d t : List UInt16} (hd : Digits d) (ht : NoDigit t) :
    (d ++ t).dropWhile isDigit = t :=
  (List.dropWhile_append_of_pos hd).trans (dropWhile_of_noDigit ht)

theorem takeWhile_digits {d t : List UInt16} (hd : Digits d) (ht : NoDigit t) :
    (d ++ t).takeWhile isDigit = d := by
  rw [List.takeWhile_append_of_pos hd, takeWhile_of_noDigit ht, List.append_nil]

/-- A run of digits is followed by something else. -/
theorem exists_digits (t : List UInt16) :
    ∃ d rest, Digits d ∧ NoDigit rest ∧ t = d ++ rest := by
  refine ⟨t.takeWhile isDigit, t.dropWhile isDigit, fun _ hc => List.mem_takeWhile_imp hc,
    fun c hc => ?_, List.takeWhile_append_dropWhile.symm⟩
  have h := List.head?_dropWhile_not isDigit t
  rw [hc] at h
  simpa using h

/-! ## Values -/

def digitValue (c : UInt16) : Nat := c.toNat - 0x30

/-- The number that digits make when they follow those of `i`. -/
def valueFrom (i : Nat) (t : List UInt16) : Nat := t.foldl (fun i c => i * 10 + digitValue c) i

def value (t : List UInt16) : Nat := valueFrom 0 t

theorem digitValue_lt {c : UInt16} (h : isDigit c = true) : digitValue c < 10 := by
  have hle : c.toNat ≤ 0x39 := UInt16.le_iff_toNat_le.mp (isDigit_iff.mp h).2
  unfold digitValue
  omega

/-- Further digits do not make a number smaller. -/
theorem le_valueFrom : ∀ (t : List UInt16) (i : Nat), i ≤ valueFrom i t
  | [], i => Nat.le_refl i
  | c :: t, i => by
      have ih := le_valueFrom t (i * 10 + digitValue c)
      have hstep : i ≤ i * 10 + digitValue c := by omega
      exact Nat.le_trans hstep ih

theorem valueFrom_append (i : Nat) (s t : List UInt16) :
    valueFrom i (s ++ t) = valueFrom (valueFrom i s) t := List.foldl_append

/-! ## Numerals -/

/-- Digits without a zero in front. -/
inductive Numeral : List UInt16 → Prop where
  | zero : Numeral [0x30]
  | digits {c : UInt16} {t : List UInt16} : isDigit c = true → c ≠ 0x30 → Digits t →
      Numeral (c :: t)

theorem Numeral.isDigits {t : List UInt16} (h : Numeral t) : Digits t := by
  cases h with
  | zero =>
      intro c hc
      rw [List.mem_singleton.mp hc]
      decide
  | digits hc _ ht => exact ht.cons hc

/-- The digit of a number below ten. -/
def digit (d : Nat) : UInt16 := .ofNat (0x30 + d)

/-- The numeral of a number. -/
def numeral (n : Nat) : List UInt16 := (Nat.toDigits 10 n).map fun c => .ofNat c.toNat

theorem digit_digitValue {c : UInt16} (h : isDigit c = true) : digit (digitValue c) = c := by
  have hle : 0x30 ≤ c.toNat := UInt16.le_iff_toNat_le.mp (isDigit_iff.mp h).1
  rw [digit, digitValue, Nat.add_sub_cancel' hle, UInt16.ofNat_toNat]

theorem isDigit_digit : ∀ {d : Nat}, d < 10 → isDigit (digit d) = true := by
  decide

theorem digitValue_digit : ∀ {d : Nat}, d < 10 → digitValue (digit d) = d := by
  decide

theorem digit_ne_zero : ∀ {d : Nat}, d < 10 → d ≠ 0 → digit d ≠ 0x30 := by
  decide

theorem numeral_of_lt {d : Nat} (h : d < 10) : numeral d = [digit d] := by
  rw [numeral, Nat.toDigits_of_lt_base h, List.map_singleton, Nat.toNat_digitChar_of_lt_ten h]
  rfl

theorem numeral_append {n d : Nat} (hn : 0 < n) (hd : d < 10) :
    numeral (n * 10 + d) = numeral n ++ [digit d] := by
  rw [← numeral_of_lt hd, numeral, Nat.mul_comm, ← Nat.toDigits_append_toDigits (by decide) hn hd,
    List.map_append]
  rfl

/-- Digits behind the numeral of a number other than zero. -/
theorem numeral_valueFrom : ∀ {t : List UInt16} {i : Nat}, 0 < i → Digits t →
    numeral (valueFrom i t) = numeral i ++ t
  | [], _, _, _ => (List.append_nil _).symm
  | c :: t, i, hi, ht => by
      have hc := ht c List.mem_cons_self
      have ih := numeral_valueFrom (i := i * 10 + digitValue c) (by omega) ht.tail
      show numeral (valueFrom (i * 10 + digitValue c) t) = _
      rw [ih, numeral_append hi (digitValue_lt hc), digit_digitValue hc, List.append_assoc]
      rfl

/-- A numeral is that of the number it makes. -/
theorem Numeral.numeral_value {t : List UInt16} (h : Numeral t) : numeral (value t) = t := by
  cases h with
  | zero => decide
  | @digits c t hc hzero ht =>
      have hpos : 0 < digitValue c := by
        refine Nat.pos_of_ne_zero fun h => hzero ?_
        rw [← digit_digitValue hc, h]
        rfl
      have hvalue : value (c :: t) = valueFrom (digitValue c) t := by
        show valueFrom (0 * 10 + digitValue c) t = _
        rw [Nat.zero_mul, Nat.zero_add]
      rw [hvalue, numeral_valueFrom hpos ht, numeral_of_lt (digitValue_lt hc), digit_digitValue hc]
      rfl

/-- What is read from the numeral of a number, and that it is one. -/
theorem numeral_spec (n : Nat) : Numeral (numeral n) ∧ value (numeral n) = n ∧
    (0 < n → (numeral n).head? ≠ some 0x30) := by
  induction n using Nat.strongRecOn with
  | _ n ih =>
      rcases Nat.lt_or_ge n 10 with hn | hn
      · rw [numeral_of_lt hn]
        have hvalue : value [digit n] = n := by
          show 0 * 10 + digitValue (digit n) = n
          rw [digitValue_digit hn, Nat.zero_mul, Nat.zero_add]
        by_cases hzero : n = 0
        · subst hzero
          exact ⟨.zero, hvalue, fun h => absurd h (Nat.lt_irrefl 0)⟩
        · have hne := digit_ne_zero hn hzero
          exact ⟨.digits (isDigit_digit hn) hne (fun _ h => absurd h List.not_mem_nil), hvalue,
            fun _ h => hne (Option.some.inj h)⟩
      · have hpos : 0 < n / 10 := Nat.div_pos hn (by decide)
        have hdigit : n % 10 < 10 := Nat.mod_lt n (by decide)
        obtain ⟨hnumeral, hvalue, hhead⟩ := ih (n / 10) (Nat.div_lt_self (by omega) (by decide))
        have hsplit : numeral n = numeral (n / 10) ++ [digit (n % 10)] := by
          rw [← numeral_append hpos hdigit, Nat.div_add_mod']
        have hhead' := hhead hpos
        have hvalue' : value (numeral (n / 10) ++ [digit (n % 10)]) = n := by
          show valueFrom 0 _ = n
          rw [valueFrom_append, show valueFrom 0 (numeral (n / 10)) = n / 10 from hvalue]
          show n / 10 * 10 + digitValue (digit (n % 10)) = n
          rw [digitValue_digit hdigit, Nat.div_add_mod']
        rw [hsplit]
        generalize numeral (n / 10) = t at hnumeral hhead' hvalue'
        cases hnumeral with
        | zero => exact absurd rfl hhead'
        | @digits c t hc hzero ht =>
            refine ⟨.digits hc hzero fun d hd => ?_, hvalue', fun _ => hhead'⟩
            rcases List.mem_append.mp hd with hd | hd
            · exact ht d hd
            · rw [List.mem_singleton.mp hd]
              exact isDigit_digit hdigit

theorem isNumeral_numeral (n : Nat) : Numeral (numeral n) := (numeral_spec n).1

@[simp] theorem value_numeral (n : Nat) : value (numeral n) = n := (numeral_spec n).2.1

/-- The numerals are those of the numbers. -/
theorem eq_numeral_iff {t : List UInt16} {n : Nat} : t = numeral n ↔ Numeral t ∧ value t = n := by
  constructor
  · rintro rfl
    exact ⟨isNumeral_numeral n, value_numeral n⟩
  · rintro ⟨ht, rfl⟩
    exact ht.numeral_value.symm

/-- Short numerals are those of small numbers. -/
theorem length_numeral_le_iff {n k : Nat} (hk : 0 < k) :
    (numeral n).length ≤ k ↔ n < 10 ^ k := by
  rw [numeral, List.length_map]
  exact Nat.length_toDigits_le_iff (by decide) hk

/-- Digits are a numeral unless there is a zero in front of others. -/
theorem numeral_iff {t : List UInt16} :
    Numeral t ↔ t ≠ [] ∧ Digits t ∧ (1 < t.length → t.head? ≠ some 0x30) := by
  constructor
  · intro h
    refine ⟨?_, h.isDigits, ?_⟩
    · cases h <;> exact List.cons_ne_nil _ _
    · intro hlength hhead
      cases h with
      | zero => exact absurd hlength (by decide)
      | digits _ hzero _ => exact hzero (Option.some.inj hhead)
  · rintro ⟨hne, hdigits, hhead⟩
    cases t with
    | nil => exact absurd rfl hne
    | cons c t =>
        have hc := hdigits c List.mem_cons_self
        by_cases hzero : c = 0x30
        · subst hzero
          cases t with
          | nil => exact .zero
          | cons d t => exact absurd rfl (hhead (Nat.succ_lt_succ (Nat.succ_pos _)))
        · exact .digits hc hzero hdigits.tail

/-! ## 32 bits -/

/-- The test before a digit is added to a number of 32 bits. -/
theorem overflow_iff (n : Nat) {d : Nat} (hd : d < 10) :
    n > 429496729 - (if d > 5 then 1 else 0) ↔ ¬ n * 10 + d < 2 ^ 32 := by
  split_ifs <;> omega

end Decimal
