/-
# `CodeUnits` — UTF-16 code units and two ways to write them as bytes

A text is a list of UTF-16 code units, any list: lone surrogates and `U+0000`
are units like every other.  Two byte forms of it are in use.

    utf8          a lead surrogate followed by a trail surrogate is one
                  4-byte sequence; every other unit is its own sequence
    modifiedUtf8  every unit is its own sequence, and `U+0000` is `C0 80`

The two agree on a text exactly when it has no zero unit and no adjacent
lead/trail pair (`cString_utf8_eq_modifiedUtf8_iff`), read up to the first
zero byte.  Both are injective; for `modifiedUtf8` the inverse is the decoder
`readModified`, which accepts nothing else.
-/
import Mathlib.Data.List.Basic
import Mathlib.Data.List.Infix
import Mathlib.Data.List.TakeWhile
import Mathlib.Tactic.Common

namespace CodeUnits

/-! ## Surrogates -/

/-- The high half of a supplementary character. -/
def IsLead (u : UInt16) : Prop := 0xD800 ≤ u.toNat ∧ u.toNat < 0xDC00

/-- The low half of a supplementary character. -/
def IsTrail (u : UInt16) : Prop := 0xDC00 ≤ u.toNat ∧ u.toNat < 0xE000

instance (u : UInt16) : Decidable (IsLead u) := inferInstanceAs (Decidable (_ ∧ _))

instance (u : UInt16) : Decidable (IsTrail u) := inferInstanceAs (Decidable (_ ∧ _))

theorem not_isTrail_of_isLead {u : UInt16} (h : IsLead u) : ¬ IsTrail u := by
  intro h'
  have h₁ := h.2
  have h₂ := h'.1
  omega

theorem not_isTrail_zero : ¬ IsTrail 0 := by decide

theorem not_isLead_zero : ¬ IsLead 0 := by decide

/-- A one-byte character is no surrogate. -/
theorem not_isLead_toUInt16 (c : UInt8) : ¬ IsLead c.toUInt16 := by
  intro h
  have hc := c.toNat_lt
  have hlow := h.1
  rw [UInt8.toNat_toUInt16] at hlow
  omega

theorem not_isTrail_toUInt16 (c : UInt8) : ¬ IsTrail c.toUInt16 := by
  intro h
  have hc := c.toNat_lt
  have hlow := h.1
  rw [UInt8.toNat_toUInt16] at hlow
  omega

/-- The code point a lead and a trail stand for together. -/
def combine (a b : UInt16) : Nat :=
  0x10000 + (a.toNat % 1024) * 1024 + b.toNat % 1024

theorem combine_ge (a b : UInt16) : 0x10000 ≤ combine a b := by
  unfold combine
  omega

theorem combine_lt (a b : UInt16) : combine a b < 0x110000 := by
  unfold combine
  omega

/-! ## The byte sequence of one code point -/

/-- The 1- to 4-byte sequence of a code point, shortest form. -/
def codePointBytes (c : Nat) : List UInt8 :=
  if c < 0x80 then [.ofNat c]
  else if c < 0x800 then [.ofNat (0xC0 + c / 64), .ofNat (0x80 + c % 64)]
  else if c < 0x10000 then
    [.ofNat (0xE0 + c / 4096), .ofNat (0x80 + c / 64 % 64), .ofNat (0x80 + c % 64)]
  else
    [.ofNat (0xF0 + c / 262144), .ofNat (0x80 + c / 4096 % 64),
     .ofNat (0x80 + c / 64 % 64), .ofNat (0x80 + c % 64)]

theorem length_codePointBytes (c : Nat) :
    (codePointBytes c).length =
      if c < 0x80 then 1 else if c < 0x800 then 2 else if c < 0x10000 then 3 else 4 := by
  unfold codePointBytes
  split_ifs <;> rfl

theorem codePointBytes_ne_nil (c : Nat) : codePointBytes c ≠ [] := by
  unfold codePointBytes
  split_ifs <;> simp

/-- A code unit takes at least one byte and at most three. -/
theorem length_unit_bytes (u : UInt16) :
    1 ≤ (codePointBytes u.toNat).length ∧ (codePointBytes u.toNat).length ≤ 3 := by
  have := u.toNat_lt
  rw [length_codePointBytes]
  split_ifs <;> omega

theorem length_surrogate_bytes {u : UInt16} (h : IsLead u ∨ IsTrail u) :
    (codePointBytes u.toNat).length = 3 := by
  have := u.toNat_lt
  unfold IsLead IsTrail at h
  rw [length_codePointBytes]
  split_ifs <;> omega

theorem length_combine_bytes (a b : UInt16) :
    (codePointBytes (combine a b)).length = 4 := by
  have := combine_ge a b
  rw [length_codePointBytes]
  split_ifs <;> omega

theorem ofNat_ne_zero {n : Nat} (h₀ : 0 < n) (h₁ : n < 256) : UInt8.ofNat n ≠ 0 := by
  intro h
  have h' := congrArg UInt8.toNat h
  simp only [UInt8.toNat_ofNat', UInt8.reduceToNat] at h'
  omega

/-- Only the code point `0` writes a zero byte. -/
theorem zero_mem_codePointBytes {c : Nat} (hc : c < 0x110000) :
    (0 : UInt8) ∈ codePointBytes c ↔ c = 0 := by
  unfold codePointBytes
  constructor
  · intro h
    by_contra hne
    split_ifs at h with h₁ h₂ h₃ <;>
      simp only [List.mem_cons, List.not_mem_nil, or_false] at h
    · exact ofNat_ne_zero (by omega) (by omega) h.symm
    · rcases h with h | h <;> exact ofNat_ne_zero (by omega) (by omega) h.symm
    · rcases h with h | h | h <;> exact ofNat_ne_zero (by omega) (by omega) h.symm
    · rcases h with h | h | h | h <;> exact ofNat_ne_zero (by omega) (by omega) h.symm
  · rintro rfl
    simp

/-! ## UTF-8 of a text -/

/-- UTF-8, a lone surrogate as the 3-byte sequence of its own value. -/
def utf8 : List UInt16 → List UInt8
  | [] => []
  | [a] => codePointBytes a.toNat
  | a :: b :: us =>
      if IsLead a ∧ IsTrail b then codePointBytes (combine a b) ++ utf8 us
      else codePointBytes a.toNat ++ utf8 (b :: us)

/-- The last unit of `xs` and the first of `ys` are a pair. -/
def Joins (xs ys : List UInt16) : Prop :=
  ∃ a b, xs.getLast? = some a ∧ ys.head? = some b ∧ IsLead a ∧ IsTrail b

instance (xs ys : List UInt16) : Decidable (Joins xs ys) :=
  match hx : xs.getLast?, hy : ys.head? with
  | some a, some b =>
      decidable_of_iff (IsLead a ∧ IsTrail b)
        ⟨fun h => ⟨a, b, hx, hy, h⟩, by
          rintro ⟨a', b', ha, hb, h⟩
          rw [hx] at ha
          rw [hy] at hb
          cases ha
          cases hb
          exact h⟩
  | none, _ => isFalse (by rintro ⟨a, b, ha, -⟩; rw [hx] at ha; cases ha)
  | some _, none => isFalse (by rintro ⟨a, b, -, hb, -⟩; rw [hy] at hb; cases hb)

theorem not_joins_nil_left (ys : List UInt16) : ¬ Joins [] ys := by
  rintro ⟨a, b, ha, -⟩
  cases ha

theorem joins_append_left (xs : List UInt16) {ys zs : List UInt16} (h : ys ≠ []) :
    Joins (xs ++ ys) zs ↔ Joins ys zs := by
  unfold Joins
  rw [List.getLast?_append_of_ne_nil xs h]

theorem joins_singleton {a b : UInt16} {us : List UInt16} :
    Joins [a] (b :: us) ↔ IsLead a ∧ IsTrail b := by
  constructor
  · rintro ⟨a', b', ha, hb, h⟩
    cases ha
    cases hb
    exact h
  · exact fun h => ⟨a, b, rfl, rfl, h⟩

/-- Cutting a text anywhere but inside a pair cuts its bytes there. -/
theorem utf8_append {xs ys : List UInt16} (h : ¬ Joins xs ys) :
    utf8 (xs ++ ys) = utf8 xs ++ utf8 ys := by
  induction xs using utf8.induct with
  | case1 => rfl
  | case2 a =>
      cases ys with
      | nil => simp [utf8]
      | cons b us =>
          rw [joins_singleton] at h
          simp only [List.cons_append, List.nil_append, utf8, if_neg h]
  | case3 a b us hpair ih =>
      have h' : ¬ Joins us ys := by
        intro hj
        cases us with
        | nil => exact not_joins_nil_left ys hj
        | cons c us' =>
            exact h ((joins_append_left [a, b] (List.cons_ne_nil c us')).mpr hj)
      simp only [List.cons_append, utf8, if_pos hpair, ih h', List.append_assoc]
  | case4 a b us hpair ih =>
      have h' : ¬ Joins (b :: us) ys := fun hj =>
        h ((joins_append_left [a] (List.cons_ne_nil b us)).mpr hj)
      have ih' := ih h'
      simp only [List.cons_append] at ih' ⊢
      simp only [utf8, if_neg hpair, ih', List.append_assoc]

/-- After a unit that is no lead surrogate the bytes can be cut. -/
theorem utf8_cons_of_not_isLead {a : UInt16} (h : ¬ IsLead a) (us : List UInt16) :
    utf8 (a :: us) = codePointBytes a.toNat ++ utf8 us := by
  have hj : ¬ Joins [a] us := by
    rintro ⟨a', b, ha, -, hl, -⟩
    cases ha
    exact h hl
  exact utf8_append hj

/-- Before a unit that is no trail surrogate the bytes can be cut. -/
theorem utf8_append_cons_of_not_isTrail {b : UInt16} (h : ¬ IsTrail b) (xs us : List UInt16) :
    utf8 (xs ++ b :: us) = utf8 xs ++ utf8 (b :: us) := by
  have hj : ¬ Joins xs (b :: us) := by
    rintro ⟨a, b', -, hb, -, ht⟩
    cases hb
    exact h ht
  exact utf8_append hj

/-- A pair is written as one sequence wherever it stands. -/
theorem utf8_append_pair {xs ys : List UInt16} {a b : UInt16} (ha : IsLead a)
    (hb : IsTrail b) :
    utf8 (xs ++ a :: b :: ys) = utf8 xs ++ (codePointBytes (combine a b) ++ utf8 ys) := by
  rw [utf8_append_cons_of_not_isTrail (not_isTrail_of_isLead ha)]
  simp only [utf8, if_pos (And.intro ha hb)]

/-- A pair across a cut saves two of the six bytes its halves take apart. -/
theorem length_utf8_append (xs ys : List UInt16) :
    (utf8 (xs ++ ys)).length + (if Joins xs ys then 2 else 0) =
      (utf8 xs).length + (utf8 ys).length := by
  by_cases h : Joins xs ys
  · obtain ⟨a, b, hxs, hys, ha, hb⟩ := h
    obtain ⟨xs', rfl⟩ := List.getLast?_eq_some_iff.mp hxs
    obtain ⟨ys', rfl⟩ := List.head?_eq_some_iff.mp hys
    have hj : Joins (xs' ++ [a]) (b :: ys') := ⟨a, b, hxs, hys, ha, hb⟩
    have hla := length_surrogate_bytes (Or.inl ha)
    have hlb := length_surrogate_bytes (Or.inr hb)
    rw [if_pos hj, List.append_assoc, List.singleton_append, utf8_append_pair ha hb,
      utf8_append_cons_of_not_isTrail (not_isTrail_of_isLead ha),
      utf8_cons_of_not_isLead (fun hl => not_isTrail_of_isLead hl hb)]
    simp only [List.length_append, utf8, length_combine_bytes, hla, hlb]
    omega
  · rw [if_neg h, utf8_append h, List.length_append, Nat.add_zero]

/-- More text takes no fewer bytes. -/
theorem length_utf8_le_append (xs ys : List UInt16) :
    (utf8 xs).length ≤ (utf8 (xs ++ ys)).length := by
  have hadd := length_utf8_append xs ys
  by_cases h : Joins xs ys
  · obtain ⟨a, b, hxs, hys, ha, hb⟩ := h
    obtain ⟨ys', rfl⟩ := List.head?_eq_some_iff.mp hys
    have hlb := length_surrogate_bytes (Or.inr hb)
    rw [utf8_cons_of_not_isLead (fun hl => not_isTrail_of_isLead hl hb), List.length_append,
      hlb] at hadd
    split_ifs at hadd <;> omega
  · rw [if_neg h] at hadd
    omega

/-- No unit takes more than three bytes. -/
theorem length_utf8_le_three_mul (us : List UInt16) : (utf8 us).length ≤ 3 * us.length := by
  induction us with
  | nil => exact Nat.le_refl _
  | cons a us ih =>
      have hadd := length_utf8_append [a] us
      have ha : (utf8 [a]).length ≤ 3 := (length_unit_bytes a).2
      rw [List.length_cons]
      rw [List.singleton_append] at hadd
      omega

/-- A zero byte comes from a zero unit and from nothing else. -/
theorem zero_mem_utf8 (us : List UInt16) : (0 : UInt8) ∈ utf8 us ↔ (0 : UInt16) ∈ us := by
  have hunit : ∀ a : UInt16, (0 : UInt8) ∈ codePointBytes a.toNat ↔ 0 = a := by
    intro a
    have := a.toNat_lt
    rw [zero_mem_codePointBytes (by omega)]
    constructor
    · exact fun h => (UInt16.toNat_inj.mp h).symm
    · rintro rfl
      rfl
  induction us using utf8.induct with
  | case1 => simp [utf8]
  | case2 a => simp only [utf8, hunit, List.mem_singleton]
  | case3 a b us hpair ih =>
      have hc : (0 : UInt8) ∉ codePointBytes (combine a b) := by
        rw [zero_mem_codePointBytes (combine_lt a b)]
        have := combine_ge a b
        omega
      have ha : (0 : UInt16) ≠ a := by
        rintro rfl
        exact not_isLead_zero hpair.1
      have hb : (0 : UInt16) ≠ b := by
        rintro rfl
        exact not_isTrail_zero hpair.2
      simp only [utf8, if_pos hpair, List.mem_append, hc, ih, List.mem_cons, ha, hb, false_or]
  | case4 a b us hpair ih =>
      simp only [utf8, if_neg hpair, List.mem_append, hunit, ih, List.mem_cons]

/-! ## Modified UTF-8 -/

/-- The 1- to 3-byte sequence of one unit; the zero unit takes two bytes. -/
def modifiedUnit (u : UInt16) : List UInt8 :=
  if u = 0 then [0xC0, 0x80] else codePointBytes u.toNat

/-- Modified UTF-8: unit by unit, surrogates like the rest. -/
def modifiedUtf8 (us : List UInt16) : List UInt8 := us.flatMap modifiedUnit

@[simp] theorem modifiedUtf8_nil : modifiedUtf8 [] = [] := rfl

@[simp] theorem modifiedUtf8_cons (u : UInt16) (us : List UInt16) :
    modifiedUtf8 (u :: us) = modifiedUnit u ++ modifiedUtf8 us := by
  simp [modifiedUtf8]

theorem modifiedUtf8_append (xs ys : List UInt16) :
    modifiedUtf8 (xs ++ ys) = modifiedUtf8 xs ++ modifiedUtf8 ys := by
  simp [modifiedUtf8]

theorem zero_not_mem_modifiedUnit (u : UInt16) : (0 : UInt8) ∉ modifiedUnit u := by
  unfold modifiedUnit
  split_ifs with h
  · decide
  · have := u.toNat_lt
    rw [zero_mem_codePointBytes (by omega)]
    exact fun h0 => h (UInt16.toNat_inj.mp h0)

theorem zero_not_mem_modifiedUtf8 (us : List UInt16) : (0 : UInt8) ∉ modifiedUtf8 us := by
  simp only [modifiedUtf8, List.mem_flatMap, not_exists, not_and]
  exact fun u _ => zero_not_mem_modifiedUnit u

/-- The 2-byte sequence of a value below `0x800`. -/
theorem codePointBytes_two {c : Nat} (h₁ : 0x80 ≤ c) (h₂ : c < 0x800) :
    codePointBytes c = [.ofNat (0xC0 + c / 64), .ofNat (0x80 + c % 64)] := by
  unfold codePointBytes
  rw [if_neg (by omega), if_pos h₂]

/-- The 3-byte sequence of a value that needs it. -/
theorem codePointBytes_three {c : Nat} (h₁ : 0x800 ≤ c) (h₂ : c < 0x10000) :
    codePointBytes c =
      [.ofNat (0xE0 + c / 4096), .ofNat (0x80 + c / 64 % 64), .ofNat (0x80 + c % 64)] := by
  unfold codePointBytes
  rw [if_neg (by omega), if_neg (by omega), if_pos h₂]

/-- A continuation byte. -/
def IsTail (b : UInt8) : Prop := 0x80 ≤ b.toNat ∧ b.toNat < 0xC0

instance (b : UInt8) : Decidable (IsTail b) := inferInstanceAs (Decidable (_ ∧ _))

/-- Reads one unit in modified UTF-8 off the front; `none` where no unit's
sequence stands there: a zero byte, a stray or missing continuation, an overlong
sequence other than `C0 80`, a 4-byte sequence. -/
def readUnit : List UInt8 → Option (UInt16 × List UInt8)
  | [] => none
  | a :: bs =>
      if 0 < a.toNat ∧ a.toNat < 0x80 then some (.ofNat a.toNat, bs)
      else match bs with
        | [] => none
        | b :: bs =>
            if 0xC0 ≤ a.toNat ∧ a.toNat < 0xE0 ∧ IsTail b then
              let c := (a.toNat - 0xC0) * 64 + (b.toNat - 0x80)
              if 0x80 ≤ c ∨ c = 0 then some (.ofNat c, bs) else none
            else match bs with
              | [] => none
              | d :: bs =>
                  if 0xE0 ≤ a.toNat ∧ a.toNat < 0xF0 ∧ IsTail b ∧ IsTail d then
                    let c := (a.toNat - 0xE0) * 4096 + (b.toNat - 0x80) * 64 + (d.toNat - 0x80)
                    if 0x800 ≤ c then some (.ofNat c, bs) else none
                  else none

theorem toNat_ofNat_of_lt {n : Nat} (h : n < 256) : (UInt8.ofNat n).toNat = n := by
  rw [UInt8.toNat_ofNat']
  omega

theorem ofNat_toNat_eq {b : UInt8} {n : Nat} (h : b.toNat = n) : UInt8.ofNat n = b := by
  rw [← h, UInt8.ofNat_toNat]

/-- Reading undoes writing, whatever follows. -/
theorem readUnit_modifiedUnit (u : UInt16) (bs : List UInt8) :
    readUnit (modifiedUnit u ++ bs) = some (u, bs) := by
  have hu := u.toNat_lt
  have hback : UInt16.ofNat u.toNat = u := UInt16.ofNat_toNat
  unfold modifiedUnit
  by_cases h0 : u = 0
  · subst h0
    have ha : (0xC0 : UInt8).toNat = 0xC0 := rfl
    have hb : (0x80 : UInt8).toNat = 0x80 := rfl
    simp only [if_pos, List.cons_append, List.nil_append, readUnit, IsTail, ha, hb]
    simp
  have hpos : 0 < u.toNat := by
    rcases Nat.eq_zero_or_pos u.toNat with h | h
    · exact absurd (UInt16.toNat_inj.mp h) h0
    · exact h
  rw [if_neg h0]
  by_cases h1 : u.toNat < 0x80
  · have ha : (UInt8.ofNat u.toNat).toNat = u.toNat := toNat_ofNat_of_lt (by omega)
    simp only [codePointBytes, if_pos h1, List.cons_append, List.nil_append, readUnit, ha,
      if_pos (And.intro hpos h1), hback]
  by_cases h2 : u.toNat < 0x800
  · have ha : (UInt8.ofNat (0xC0 + u.toNat / 64)).toNat = 0xC0 + u.toNat / 64 :=
      toNat_ofNat_of_lt (by omega)
    have hb : (UInt8.ofNat (0x80 + u.toNat % 64)).toNat = 0x80 + u.toNat % 64 :=
      toNat_ofNat_of_lt (by omega)
    have hc : (0xC0 + u.toNat / 64 - 0xC0) * 64 + (0x80 + u.toNat % 64 - 0x80) = u.toNat := by
      omega
    rw [codePointBytes_two (by omega) h2]
    simp only [List.cons_append, List.nil_append, readUnit, IsTail, ha, hb, hc]
    rw [if_neg (by omega), if_pos (by omega), if_pos (by omega), hback]
  · have ha : (UInt8.ofNat (0xE0 + u.toNat / 4096)).toNat = 0xE0 + u.toNat / 4096 :=
      toNat_ofNat_of_lt (by omega)
    have hb : (UInt8.ofNat (0x80 + u.toNat / 64 % 64)).toNat = 0x80 + u.toNat / 64 % 64 :=
      toNat_ofNat_of_lt (by omega)
    have hd : (UInt8.ofNat (0x80 + u.toNat % 64)).toNat = 0x80 + u.toNat % 64 :=
      toNat_ofNat_of_lt (by omega)
    have hc : (0xE0 + u.toNat / 4096 - 0xE0) * 4096 + (0x80 + u.toNat / 64 % 64 - 0x80) * 64 +
        (0x80 + u.toNat % 64 - 0x80) = u.toNat := by
      omega
    rw [codePointBytes_three (by omega) (by omega)]
    simp only [List.cons_append, List.nil_append, readUnit, IsTail, ha, hb, hd, hc]
    rw [if_neg (by omega), if_neg (by omega), if_pos (by omega), if_pos (by omega), hback]

/-- What is read off the front is the sequence of the unit it is read as. -/
theorem eq_of_readUnit {bs rest : List UInt8} {u : UInt16}
    (h : readUnit bs = some (u, rest)) : bs = modifiedUnit u ++ rest := by
  cases bs with
  | nil => cases h
  | cons a bs =>
    have ha := a.toNat_lt
    simp only [readUnit] at h
    split_ifs at h with h1
    · -- one byte
      cases h
      have hn : (UInt16.ofNat a.toNat).toNat = a.toNat := by
        rw [UInt16.toNat_ofNat']
        omega
      have h0 : UInt16.ofNat a.toNat ≠ 0 := by
        intro h0
        rw [h0] at hn
        exact absurd hn (by simp only [UInt16.reduceToNat]; omega)
      unfold modifiedUnit
      rw [if_neg h0, hn]
      simp only [codePointBytes, if_pos h1.2, UInt8.ofNat_toNat, List.cons_append,
        List.nil_append]
    cases bs with
    | nil => cases h
    | cons b bs =>
      have hb := b.toNat_lt
      simp only at h
      split_ifs at h with h2 h2'
      · -- two bytes, `C0 80` among them
        simp only [Option.some.injEq, Prod.mk.injEq] at h
        obtain ⟨rfl, rfl⟩ := h
        obtain ⟨h2a, h2b, h2c, h2d⟩ := h2
        generalize hc : (a.toNat - 0xC0) * 64 + (b.toNat - 0x80) = c at *
        have hn : (UInt16.ofNat c).toNat = c := by
          rw [UInt16.toNat_ofNat']
          omega
        by_cases h0 : c = 0
        · have hA : a.toNat = 0xC0 := by omega
          have hB : b.toNat = 0x80 := by omega
          subst h0
          rw [← ofNat_toNat_eq hA, ← ofNat_toNat_eq hB]
          rfl
        · have hne : UInt16.ofNat c ≠ 0 := by
            intro he
            rw [he] at hn
            exact h0 hn.symm
          unfold modifiedUnit
          rw [if_neg hne, hn, codePointBytes_two (by omega) (by omega),
            ofNat_toNat_eq (b := a) (by omega), ofNat_toNat_eq (b := b) (by omega)]
          rfl
      · cases bs with
        | nil => cases h
        | cons d bs =>
          have hd := d.toNat_lt
          simp only at h
          split_ifs at h with h4 h5
          -- three bytes
          simp only [Option.some.injEq, Prod.mk.injEq] at h
          obtain ⟨rfl, rfl⟩ := h
          obtain ⟨h4a, h4b, ⟨h4c, h4d⟩, h4e, h4f⟩ := h4
          generalize hc : (a.toNat - 0xE0) * 4096 + (b.toNat - 0x80) * 64 +
            (d.toNat - 0x80) = c at *
          have hn : (UInt16.ofNat c).toNat = c := by
            rw [UInt16.toNat_ofNat']
            omega
          have hne : UInt16.ofNat c ≠ 0 := by
            intro he
            rw [he] at hn
            exact absurd hn (by simp only [UInt16.reduceToNat]; omega)
          unfold modifiedUnit
          rw [if_neg hne, hn, codePointBytes_three (by omega) (by omega),
            ofNat_toNat_eq (b := a) (by omega), ofNat_toNat_eq (b := b) (by omega),
            ofNat_toNat_eq (b := d) (by omega)]
          rfl

/-- Reads at most `fuel` units. -/
def readUnits : Nat → List UInt8 → Option (List UInt16)
  | _, [] => some []
  | 0, _ :: _ => none
  | fuel + 1, b :: bs =>
      match readUnit (b :: bs) with
      | some (u, rest) => (readUnits fuel rest).map (u :: ·)
      | none => none

/-- Reads modified UTF-8: the text whose form the bytes are, if there is one. -/
def readModified (bs : List UInt8) : Option (List UInt16) := readUnits bs.length bs

theorem modifiedUnit_ne_nil (u : UInt16) : modifiedUnit u ≠ [] := by
  unfold modifiedUnit
  split_ifs
  · simp
  · exact codePointBytes_ne_nil _

theorem readUnits_modifiedUtf8 :
    ∀ (us : List UInt16) (fuel : Nat), us.length ≤ fuel →
      readUnits fuel (modifiedUtf8 us) = some us
  | [], fuel, _ => by cases fuel <;> rfl
  | u :: us, fuel, h => by
      obtain ⟨fuel, rfl⟩ : ∃ n, fuel = n + 1 := ⟨fuel - 1, by simp at h; omega⟩
      have hread := readUnit_modifiedUnit u (modifiedUtf8 us)
      have ih := readUnits_modifiedUtf8 us fuel (by simpa using h)
      rw [modifiedUtf8_cons]
      cases hm : modifiedUnit u with
      | nil => exact absurd hm (modifiedUnit_ne_nil u)
      | cons b bs =>
          rw [hm, List.cons_append] at hread
          simp only [List.cons_append, readUnits, hread, ih, Option.map_some]

theorem eq_of_readUnits :
    ∀ (fuel : Nat) (bs : List UInt8) (us : List UInt16),
      readUnits fuel bs = some us → bs = modifiedUtf8 us
  | _, [], us, h => by
      simp only [readUnits, Option.some.injEq] at h
      subst h
      rfl
  | 0, _ :: _, us, h => by cases h
  | fuel + 1, b :: bs, us, h => by
      cases hr : readUnit (b :: bs) with
      | none => simp only [readUnits, hr, reduceCtorEq] at h
      | some p =>
          obtain ⟨u, rest⟩ := p
          simp only [readUnits, hr] at h
          obtain ⟨vs, hvs, rfl⟩ := Option.map_eq_some_iff.mp h
          rw [eq_of_readUnit hr, eq_of_readUnits fuel rest vs hvs, modifiedUtf8_cons]

theorem length_le_length_modifiedUtf8 (us : List UInt16) :
    us.length ≤ (modifiedUtf8 us).length := by
  induction us with
  | nil => simp
  | cons u us ih =>
      have := List.length_pos_iff.mpr (modifiedUnit_ne_nil u)
      rw [modifiedUtf8_cons, List.length_append, List.length_cons]
      omega

/-- The decoder is the inverse of the encoder, and accepts nothing else. -/
theorem readModified_eq_some_iff {bs : List UInt8} {us : List UInt16} :
    readModified bs = some us ↔ bs = modifiedUtf8 us := by
  constructor
  · exact eq_of_readUnits _ bs us
  · rintro rfl
    exact readUnits_modifiedUtf8 us _ (length_le_length_modifiedUtf8 us)

/-! ## Nothing is lost in UTF-8 -/

theorem ofNat_inj {m n : Nat} (hm : m < 256) (hn : n < 256) :
    UInt8.ofNat m = UInt8.ofNat n ↔ m = n := by
  constructor
  · intro h
    rw [← toNat_ofNat_of_lt hm, h, toNat_ofNat_of_lt hn]
  · exact fun h => congrArg UInt8.ofNat h

/-- No sequence of a code point is the beginning of another. -/
theorem codePointBytes_append_inj {c d : Nat} (hc : c < 0x110000) (hd : d < 0x110000)
    {xs ys : List UInt8} (h : codePointBytes c ++ xs = codePointBytes d ++ ys) :
    c = d ∧ xs = ys := by
  unfold codePointBytes at h
  split_ifs at h
  all_goals
    simp (disch := omega) only [List.cons_append, List.nil_append, List.cons.injEq,
      ofNat_inj] at h
    first
    -- the first bytes tell sequences of different lengths apart
    | omega
    | exact ⟨by omega, by simp only [h]⟩

/-- The code units of a code point. -/
def codePointUnits (c : Nat) : List UInt16 :=
  if c < 0x10000 then [.ofNat c]
  else [.ofNat (0xD800 + (c - 0x10000) / 1024), .ofNat (0xDC00 + c % 1024)]

theorem codePointUnits_unit (a : UInt16) : codePointUnits a.toNat = [a] := by
  rw [codePointUnits, if_pos a.toNat_lt, UInt16.ofNat_toNat]

theorem codePointUnits_combine {a b : UInt16} (ha : IsLead a) (hb : IsTrail b) :
    codePointUnits (combine a b) = [a, b] := by
  have ha' : 0xD800 + (combine a b - 0x10000) / 1024 = a.toNat := by
    have := ha.1
    have := ha.2
    unfold combine
    omega
  have hb' : 0xDC00 + combine a b % 1024 = b.toNat := by
    have := hb.1
    have := hb.2
    unfold combine
    omega
  rw [codePointUnits, if_neg (Nat.not_lt.mpr (combine_ge a b)), ha', hb', UInt16.ofNat_toNat,
    UInt16.ofNat_toNat]

/-- A text starts with a code point, and its bytes with the sequence of that. -/
theorem exists_codePoint : ∀ {us : List UInt16}, us ≠ [] → ∃ c rest, c < 0x110000 ∧
    us = codePointUnits c ++ rest ∧ utf8 us = codePointBytes c ++ utf8 rest
  | [], h => absurd rfl h
  | [a], _ => by
      have ha := a.toNat_lt
      refine ⟨a.toNat, [], by omega, ?_, ?_⟩
      · rw [codePointUnits_unit, List.append_nil]
      · simp only [utf8, List.append_nil]
  | a :: b :: us, _ => by
      by_cases hpair : IsLead a ∧ IsTrail b
      · refine ⟨combine a b, us, combine_lt a b, ?_, ?_⟩
        · rw [codePointUnits_combine hpair.1 hpair.2]
          rfl
        · simp only [utf8, if_pos hpair]
      · have ha := a.toNat_lt
        refine ⟨a.toNat, b :: us, by omega, ?_, ?_⟩
        · rw [codePointUnits_unit]
          rfl
        · simp only [utf8, if_neg hpair]

theorem codePointUnits_ne_nil (c : Nat) : codePointUnits c ≠ [] := by
  unfold codePointUnits
  split_ifs <;> simp

theorem utf8_eq_nil {us : List UInt16} (h : utf8 us = []) : us = [] := by
  by_contra hne
  obtain ⟨c, rest, -, -, hutf8⟩ := exists_codePoint hne
  rw [h] at hutf8
  exact codePointBytes_ne_nil c (List.append_eq_nil_iff.mp hutf8.symm).1

/-- Different texts have different bytes. -/
theorem utf8_injective : Function.Injective utf8 := by
  intro us
  -- by the length of the text, a code point at a time
  induction hn : us.length using Nat.strong_induction_on generalizing us with
  | _ n ih =>
      intro vs h
      by_cases hus : us = []
      · subst hus
        exact (utf8_eq_nil h.symm).symm
      have hvs : vs ≠ [] := by
        rintro rfl
        exact hus (utf8_eq_nil h)
      obtain ⟨c, us', hc, hu, hu'⟩ := exists_codePoint hus
      obtain ⟨d, vs', hd, hv, hv'⟩ := exists_codePoint hvs
      obtain ⟨rfl, hrest⟩ := codePointBytes_append_inj hc hd (hu'.symm.trans (h.trans hv'))
      have hlt : us'.length < n := by
        have := List.length_pos_iff.mpr (codePointUnits_ne_nil c)
        rw [← hn, hu, List.length_append]
        omega
      rw [hu, hv, ih us'.length hlt rfl hrest]

/-! ## Where the two forms agree -/

/-- Some lead surrogate stands right before a trail surrogate. -/
def HasPair (us : List UInt16) : Prop :=
  ∃ xs a b ys, us = xs ++ a :: b :: ys ∧ IsLead a ∧ IsTrail b

theorem HasPair.cons {us : List UInt16} (a : UInt16) (h : HasPair us) :
    HasPair (a :: us) := by
  obtain ⟨xs, b, c, ys, rfl, hb, hc⟩ := h
  exact ⟨a :: xs, b, c, ys, rfl, hb, hc⟩

/-- Bytes of a memory block read as a C string: those before the first zero. -/
def cString (bs : List UInt8) : List UInt8 := bs.takeWhile (· ≠ 0)

theorem cString_append_zero {bs rest : List UInt8} (h : (0 : UInt8) ∉ bs) :
    cString (bs ++ 0 :: rest) = bs := by
  unfold cString
  rw [List.takeWhile_append_of_pos (by
    intro b hb
    simp only [ne_eq, decide_not, Bool.not_eq_eq_eq_not, Bool.not_true, decide_eq_false_iff_not]
    rintro rfl
    exact h hb)]
  simp

/-- A C string is all of its bytes exactly when none of them is zero. -/
theorem cString_eq_self_iff {bs : List UInt8} : cString bs = bs ↔ (0 : UInt8) ∉ bs := by
  rw [cString, List.takeWhile_eq_self_iff]
  constructor
  · exact fun h hzero => of_decide_eq_true (h 0 hzero) rfl
  · intro hzero b hb
    refine decide_eq_true ?_
    rintro rfl
    exact hzero hb

theorem zero_not_mem_cString (bs : List UInt8) : (0 : UInt8) ∉ cString bs := by
  intro hzero
  have hne := List.mem_takeWhile_imp (p := fun b : UInt8 => decide (b ≠ 0)) hzero
  exact of_decide_eq_true hne rfl

theorem length_cString_le (bs : List UInt8) : (cString bs).length ≤ bs.length :=
  (List.takeWhile_prefix _).length_le

/-- What stands behind a zero byte does not count. -/
theorem cString_append : ∀ bs rest : List UInt8, cString (bs ++ 0 :: rest) = cString bs
  | [], _ => rfl
  | b :: bs, rest => by
      have ih := cString_append bs rest
      simp only [cString] at ih
      simp only [cString, List.cons_append, List.takeWhile_cons, ih]

/-- The first zero byte of a text is written at its first zero unit. -/
theorem cString_utf8_of_zero {xs ys : List UInt16} (h : (0 : UInt16) ∉ xs)
    (rest : List UInt8) : cString (utf8 (xs ++ 0 :: ys) ++ rest) = utf8 xs := by
  have h0 : codePointBytes (0 : UInt16).toNat = [0] := rfl
  rw [utf8_append_cons_of_not_isTrail not_isTrail_zero, utf8_cons_of_not_isLead not_isLead_zero,
    h0]
  simp only [List.append_assoc, List.singleton_append]
  exact cString_append_zero (by rwa [zero_mem_utf8])

theorem length_codePointBytes_le_modifiedUnit (u : UInt16) :
    (codePointBytes u.toNat).length ≤ (modifiedUnit u).length := by
  unfold modifiedUnit
  split_ifs with h
  · subst h
    decide
  · exact Nat.le_refl _

theorem modifiedUnit_of_surrogate {u : UInt16} (h : IsLead u ∨ IsTrail u) :
    modifiedUnit u = codePointBytes u.toNat := by
  have h0 : u ≠ 0 := by
    rintro rfl
    exact h.elim not_isLead_zero not_isTrail_zero
  rw [modifiedUnit, if_neg h0]

/-- A text's UTF-8 is no longer than its modified form. -/
theorem length_utf8_le (us : List UInt16) :
    (utf8 us).length ≤ (modifiedUtf8 us).length := by
  induction us using utf8.induct with
  | case1 => simp [utf8]
  | case2 a => simpa [utf8] using length_codePointBytes_le_modifiedUnit a
  | case3 a b us hpair ih =>
      have ha := length_surrogate_bytes (Or.inl hpair.1)
      have hb := length_surrogate_bytes (Or.inr hpair.2)
      simp only [utf8, if_pos hpair, modifiedUtf8_cons, List.length_append,
        length_combine_bytes, modifiedUnit_of_surrogate (Or.inl hpair.1),
        modifiedUnit_of_surrogate (Or.inr hpair.2), ha, hb]
      omega
  | case4 a b us hpair ih =>
      have := length_codePointBytes_le_modifiedUnit a
      rw [modifiedUtf8_cons]
      simp only [utf8, if_neg hpair, List.length_append]
      omega

/-- A pair makes it shorter. -/
theorem length_utf8_lt_of_hasPair {us : List UInt16} (h : HasPair us) :
    (utf8 us).length < (modifiedUtf8 us).length := by
  obtain ⟨xs, a, b, ys, rfl, ha, hb⟩ := h
  have hx := length_utf8_le xs
  have hy := length_utf8_le ys
  have hla := length_surrogate_bytes (Or.inl ha)
  have hlb := length_surrogate_bytes (Or.inr hb)
  simp only [utf8_append_pair ha hb, modifiedUtf8_append, modifiedUtf8_cons, List.length_append,
    length_combine_bytes, modifiedUnit_of_surrogate (Or.inl ha),
    modifiedUnit_of_surrogate (Or.inr hb), hla, hlb]
  omega

/-- With no pair and no zero unit, the two forms are the same. -/
theorem utf8_eq_modifiedUtf8 {us : List UInt16} (h₀ : (0 : UInt16) ∉ us)
    (hp : ¬ HasPair us) : utf8 us = modifiedUtf8 us := by
  have hunit : ∀ a : UInt16, a ≠ 0 → codePointBytes a.toNat = modifiedUnit a := by
    intro a ha
    rw [modifiedUnit, if_neg ha]
  induction us using utf8.induct with
  | case1 => rfl
  | case2 a =>
      have ha : a ≠ 0 := fun h => h₀ (by simp [h])
      simp [utf8, hunit a ha]
  | case3 a b us hpair ih => exact absurd ⟨[], a, b, us, rfl, hpair⟩ hp
  | case4 a b us hpair ih =>
      have ha : a ≠ 0 := fun h => h₀ (by simp [h])
      have ih' := ih (fun h => h₀ (List.mem_cons_of_mem a h)) (fun h => hp (h.cons a))
      rw [modifiedUtf8_cons, ← ih', ← hunit a ha]
      simp only [utf8, if_neg hpair]

/-- UTF-8 followed by a zero byte and read as a C string is the modified form
of the text exactly when the text has no zero unit and no pair. -/
theorem cString_utf8_eq_modifiedUtf8_iff (us : List UInt16) (rest : List UInt8) :
    cString (utf8 us ++ 0 :: rest) = modifiedUtf8 us ↔ (0 : UInt16) ∉ us ∧ ¬ HasPair us := by
  constructor
  · intro h
    by_cases h₀ : (0 : UInt16) ∈ us
    · -- the C string ends at the first zero unit and is too short
      exfalso
      obtain ⟨xs, ys, rfl, hxs⟩ := List.eq_append_cons_of_mem h₀
      rw [cString_utf8_of_zero hxs] at h
      have hl := congrArg List.length h
      have hx := length_utf8_le xs
      have h1 := List.length_pos_iff.mpr (modifiedUnit_ne_nil 0)
      simp only [modifiedUtf8_append, modifiedUtf8_cons, List.length_append] at hl
      omega
    · refine ⟨h₀, fun hp => ?_⟩
      rw [cString_append_zero (by rwa [zero_mem_utf8])] at h
      have hlt := length_utf8_lt_of_hasPair hp
      rw [h] at hlt
      exact Nat.lt_irrefl _ hlt
  · rintro ⟨h₀, hp⟩
    rw [cString_append_zero (by rwa [zero_mem_utf8]), utf8_eq_modifiedUtf8 h₀ hp]

end CodeUnits
