/-
# `JsonGrammar` — the texts of JSON, and what they spell

Texts are lists of UTF-16 code units.  A tree keeps of a number its digits, of a
string its code units, and of a key how it is written as well, since readers
treat keys by their spelling.

    Blank     white space
    Number    `-`, an integer, a fraction, an exponent
    Chars     what stands between quotes, and the code units it denotes
    Spells    a value without the white space around it
-/
import WeexBridge.Lib.Decimal

namespace JsonGrammar

open Decimal

abbrev Text := List UInt16

/-! ## Characters -/

def isWhite (c : UInt16) : Bool := c = 0x20 || c = 0x09 || c = 0x0A || c = 0x0D

def hexValue (c : UInt16) : Option Nat :=
  if isDigit c then some (c.toNat - 0x30)
  else if 0x61 ≤ c && c ≤ 0x66 then some (c.toNat - 0x57)
  else if 0x41 ≤ c && c ≤ 0x46 then some (c.toNat - 0x37)
  else none

/-- The escapes of two characters. -/
def shortEscape (c : UInt16) : Option UInt16 :=
  if c = 0x22 ∨ c = 0x5C ∨ c = 0x2F then some c
  else if c = 0x62 then some 0x08
  else if c = 0x66 then some 0x0C
  else if c = 0x6E then some 0x0A
  else if c = 0x72 then some 0x0D
  else if c = 0x74 then some 0x09
  else none

/-! ## Tokens -/

def Blank (t : Text) : Prop := ∀ c ∈ t, isWhite c = true

inductive Fraction : Text → Prop where
  | none : Fraction []
  | digits {c : UInt16} {t : Text} : isDigit c = true → Digits t → Fraction (0x2E :: c :: t)

inductive Exponent : Text → Prop where
  | none : Exponent []
  | digits {e : UInt16} {sign : Text} {c : UInt16} {t : Text} : e = 0x65 ∨ e = 0x45 →
      sign = [] ∨ sign = [0x2D] ∨ sign = [0x2B] → isDigit c = true → Digits t →
      Exponent (e :: (sign ++ c :: t))

/-- A number, in its four parts. -/
inductive Number : Text → Prop where
  | intro {sign integer fraction exponent : Text} : sign = [] ∨ sign = [0x2D] →
      Numeral integer → Fraction fraction → Exponent exponent →
      Number (sign ++ (integer ++ (fraction ++ exponent)))

/-- One code unit of a string as it is written. -/
inductive Piece : Text → UInt16 → Prop where
  | plain {c : UInt16} : 0x20 ≤ c → c ≠ 0x22 → c ≠ 0x5C → Piece [c] c
  | short {c u : UInt16} : shortEscape c = some u → Piece [0x5C, c] u
  | unicode {a b c d : UInt16} {w x y z : Nat} : hexValue a = some w → hexValue b = some x →
      hexValue c = some y → hexValue d = some z →
      Piece [0x5C, 0x75, a, b, c, d] (.ofNat (((w * 16 + x) * 16 + y) * 16 + z))

inductive Chars : Text → List UInt16 → Prop where
  | nil : Chars [] []
  | cons {r rs : Text} {u : UInt16} {us : List UInt16} : Piece r u → Chars rs us →
      Chars (r ++ rs) (u :: us)

/-- A key as it is written. -/
structure Key where
  raw : Text
  units : List UInt16
  spells : Chars raw units

/-! ## Values -/

/-- What a text spells. -/
inductive Tree where
  | null
  | boolean (b : Bool)
  | number (digits : Text)
  | string (units : List UInt16)
  | array (items : List Tree)
  | object (members : List (Key × Tree))

/-- The characters of a literal. -/
def literal (s : String) : Text := s.toList.map fun c => .ofNat c.toNat

mutual

inductive Spells : Tree → Text → Prop where
  | null : Spells .null (literal "null")
  | boolean {b : Bool} : Spells (.boolean b) (literal (if b then "true" else "false"))
  | number {t : Text} : Number t → Spells (.number t) t
  | string {raw : Text} {units : List UInt16} : Chars raw units →
      Spells (.string units) (0x22 :: (raw ++ [0x22]))
  | emptyArray {blank : Text} : Blank blank → Spells (.array []) (0x5B :: (blank ++ [0x5D]))
  | array {items : List Tree} {t : Text} : Items items t →
      Spells (.array items) (0x5B :: (t ++ [0x5D]))
  | emptyObject {blank : Text} : Blank blank → Spells (.object []) (0x7B :: (blank ++ [0x7D]))
  | object {members : List (Key × Tree)} {t : Text} : Members members t →
      Spells (.object members) (0x7B :: (t ++ [0x7D]))

/-- Items with commas between them. -/
inductive Items : List Tree → Text → Prop where
  | one {x : Tree} {l t r : Text} : Blank l → Spells x t → Blank r → Items [x] (l ++ (t ++ r))
  | more {x : Tree} {xs : List Tree} {l t r s : Text} : Blank l → Spells x t → Blank r →
      Items xs s → Items (x :: xs) (l ++ (t ++ (r ++ 0x2C :: s)))

/-- Members with commas between them. -/
inductive Members : List (Key × Tree) → Text → Prop where
  | one {k : Key} {x : Tree} {l m n t r : Text} : Blank l → Blank m → Blank n → Spells x t →
      Blank r → Members [(k, x)]
        (l ++ 0x22 :: (k.raw ++ 0x22 :: (m ++ 0x3A :: (n ++ (t ++ r)))))
  | more {k : Key} {x : Tree} {xs : List (Key × Tree)} {l m n t r s : Text} : Blank l →
      Blank m → Blank n → Spells x t → Blank r → Members xs s → Members ((k, x) :: xs)
        (l ++ 0x22 :: (k.raw ++ 0x22 :: (m ++ 0x3A :: (n ++ (t ++ (r ++ 0x2C :: s))))))

end

/-- A value with white space around it. -/
inductive Denotes : Text → Tree → Prop where
  | intro {x : Tree} {l t r : Text} : Blank l → Spells x t → Blank r → Denotes (l ++ (t ++ r)) x

/-! ## Nesting -/

mutual

/-- How deep values stand inside the value. -/
def depth : Tree → Nat
  | .array items => depthItems items
  | .object members => depthMembers members
  | _ => 0

def depthItems : List Tree → Nat
  | [] => 0
  | x :: xs => max (depth x + 1) (depthItems xs)

def depthMembers : List (Key × Tree) → Nat
  | [] => 0
  | (_, x) :: xs => max (depth x + 1) (depthMembers xs)

end

/-! ## White space -/

/-- The text from the first character that is not white. -/
def skipWhite (t : Text) : Text := t.dropWhile isWhite

theorem blank_nil : Blank [] := fun _ h => absurd h List.not_mem_nil

theorem Blank.append {s t : Text} (hs : Blank s) (ht : Blank t) : Blank (s ++ t) := by
  intro c hc
  rcases List.mem_append.mp hc with h | h
  · exact hs c h
  · exact ht c h

theorem skipWhite_append {blank : Text} (h : Blank blank) (t : Text) :
    skipWhite (blank ++ t) = skipWhite t := by
  induction blank with
  | nil => rfl
  | cons c blank ih =>
      have hc : isWhite c = true := h c List.mem_cons_self
      rw [List.cons_append, skipWhite, List.dropWhile_cons_of_pos hc]
      exact ih fun c hc => h c (List.mem_cons_of_mem _ hc)

theorem skipWhite_cons {c : UInt16} (hc : isWhite c = false) (t : Text) :
    skipWhite (c :: t) = c :: t :=
  List.dropWhile_cons_of_neg (by rw [hc]; exact Bool.false_ne_true)

theorem skipWhite_append_cons {blank : Text} (h : Blank blank) {c : UInt16}
    (hc : isWhite c = false) (t : Text) : skipWhite (blank ++ c :: t) = c :: t :=
  (skipWhite_append h _).trans (skipWhite_cons hc t)

/-- What is skipped is white. -/
theorem exists_blank (t : Text) : ∃ blank, Blank blank ∧ t = blank ++ skipWhite t :=
  ⟨t.takeWhile isWhite, fun _ hc => List.mem_takeWhile_imp hc,
    (List.takeWhile_append_dropWhile).symm⟩

theorem skipWhite_skipWhite (t : Text) : skipWhite (skipWhite t) = skipWhite t := by
  obtain ⟨blank, hblank, ht⟩ := exists_blank t
  conv_rhs => rw [ht, skipWhite_append hblank]

/-- The text does not begin with white space. -/
def Trimmed (t : Text) : Prop := skipWhite t = t

theorem trimmed_skipWhite (t : Text) : Trimmed (skipWhite t) := skipWhite_skipWhite t

/-! ## Where a value ends -/

/-- A number goes as far as it can: what follows is no part of it. -/
structure Maximal (fraction exponent rest : Text) : Prop where
  noDigit : NoDigit rest
  noExponent : exponent = [] → ∀ c, rest.head? = some c → c ≠ 0x65 ∧ c ≠ 0x45
  noPoint : fraction = [] → exponent = [] → rest.head? ≠ some 0x2E

/-- Nothing that could go on with a number. -/
def EndsNumber (t : Text) : Prop :=
  ∀ c, t.head? = some c → isDigit c = false ∧ c ≠ 0x2E ∧ c ≠ 0x65 ∧ c ≠ 0x45

theorem EndsNumber.maximal {rest : Text} (h : EndsNumber rest) (fraction exponent : Text) :
    Maximal fraction exponent rest where
  noDigit c hc := (h c hc).1
  noExponent _ c hc := (h c hc).2.2
  noPoint _ _ hc := (h 0x2E hc).2.1 rfl

theorem endsNumber_nil : EndsNumber [] := fun _ h => nomatch h

theorem endsNumber_cons {c : UInt16}
    (h : isDigit c = false ∧ c ≠ 0x2E ∧ c ≠ 0x65 ∧ c ≠ 0x45) (t : Text) :
    EndsNumber (c :: t) := by
  intro d hd
  cases hd
  exact h

theorem isWhite_iff {c : UInt16} :
    isWhite c = true ↔ c = 0x20 ∨ c = 0x09 ∨ c = 0x0A ∨ c = 0x0D := by
  simp only [isWhite, Bool.or_eq_true, decide_eq_true_eq, or_assoc]

theorem endsNumber_of_isWhite {c : UInt16} (hc : isWhite c = true) (t : Text) :
    EndsNumber (c :: t) := by
  refine endsNumber_cons ?_ t
  rcases isWhite_iff.mp hc with rfl | rfl | rfl | rfl <;> decide

/-- White space before something that ends a number. -/
theorem EndsNumber.blank_append {blank t : Text} (h : Blank blank) (ht : EndsNumber t) :
    EndsNumber (blank ++ t) := by
  cases blank with
  | nil => exact ht
  | cons c blank => exact endsNumber_of_isWhite (h c List.mem_cons_self) _

/-! ## How a value begins -/

theorem not_isWhite_of_isDigit {c : UInt16} (hc : isDigit c = true) : isWhite c = false := by
  refine Bool.eq_false_iff.mpr fun hw => ?_
  rcases isWhite_iff.mp hw with rfl | rfl | rfl | rfl <;> exact absurd hc (by decide)

/-- A number begins with `-` or a digit. -/
theorem Number.head {t : Text} (h : Number t) :
    ∃ c rest, t = c :: rest ∧ (c = 0x2D ∨ isDigit c = true) := by
  obtain ⟨hsign, hinteger, -, -⟩ := h
  rcases hsign with rfl | rfl
  · cases hinteger with
    | zero => exact ⟨0x30, _, rfl, Or.inr (by decide)⟩
    | digits hc => exact ⟨_, _, rfl, Or.inr hc⟩
  · exact ⟨0x2D, _, rfl, Or.inl rfl⟩

/-- A character of a string begins neither with a quote nor with a control character. -/
theorem Piece.head {r : Text} {u : UInt16} (h : Piece r u) :
    ∃ c rest, r = c :: rest ∧ c ≠ 0x22 ∧ ¬ c < 0x20 := by
  cases h with
  | plain hc hquote _ => exact ⟨_, [], rfl, hquote, UInt16.not_lt.mpr hc⟩
  | short _ => exact ⟨0x5C, _, rfl, by decide, by decide⟩
  | unicode _ _ _ _ => exact ⟨0x5C, _, rfl, by decide, by decide⟩

theorem Chars.head_ne_quote {c : UInt16} {rest : Text} {units : List UInt16}
    (h : Chars (c :: rest) units) : c ≠ 0x22 := by
  generalize hraw : c :: rest = raw at h
  cases h with
  | nil => cases hraw
  | cons hpiece _ =>
      obtain ⟨d, rest', rfl, hquote, -⟩ := hpiece.head
      cases hraw
      exact hquote

theorem Chars.append {s t : Text} {us vs : List UInt16} (hs : Chars s us) (ht : Chars t vs) :
    Chars (s ++ t) (us ++ vs) := by
  induction hs with
  | nil => exact ht
  | cons hpiece _ ih =>
      rw [List.append_assoc]
      exact .cons hpiece ih

theorem Spells.head {x : Tree} {t : Text} (h : Spells x t) :
    ∃ c rest, t = c :: rest ∧ isWhite c = false ∧ c ≠ 0x5D := by
  cases h with
  | null => exact ⟨_, _, rfl, by decide, by decide⟩
  | @boolean b => cases b <;> exact ⟨_, _, rfl, by decide, by decide⟩
  | number hn =>
      obtain ⟨c, rest, rfl, hc⟩ := hn.head
      refine ⟨c, rest, rfl, ?_⟩
      rcases hc with rfl | hc
      · exact ⟨by decide, by decide⟩
      · refine ⟨not_isWhite_of_isDigit hc, ?_⟩
        rintro rfl
        exact absurd hc (by decide)
  | string => exact ⟨_, _, rfl, by decide, by decide⟩
  | emptyArray => exact ⟨_, _, rfl, by decide, by decide⟩
  | array => exact ⟨_, _, rfl, by decide, by decide⟩
  | emptyObject => exact ⟨_, _, rfl, by decide, by decide⟩
  | object => exact ⟨_, _, rfl, by decide, by decide⟩

/-- White space in front of items belongs to the first of them. -/
theorem Items.blank_append {xs : List Tree} {blank t : Text} (hblank : Blank blank)
    (h : Items xs t) : Items xs (blank ++ t) := by
  cases h with
  | one hl hx hr =>
      rw [← List.append_assoc]
      exact .one (hblank.append hl) hx hr
  | more hl hx hr hxs =>
      rw [← List.append_assoc]
      exact .more (hblank.append hl) hx hr hxs

theorem Members.blank_append {members : List (Key × Tree)} {blank t : Text} (hblank : Blank blank)
    (h : Members members t) : Members members (blank ++ t) := by
  cases h with
  | one hl hm hn hx hr =>
      rw [← List.append_assoc]
      exact .one (hblank.append hl) hm hn hx hr
  | more hl hm hn hx hr hmembers =>
      rw [← List.append_assoc]
      exact .more (hblank.append hl) hm hn hx hr hmembers

/-- A value is found behind white space. -/
theorem skipWhite_spells {x : Tree} {blank t : Text} (hblank : Blank blank) (h : Spells x t)
    (rest : Text) : skipWhite (blank ++ (t ++ rest)) = t ++ rest := by
  obtain ⟨c, t, rfl, hc, -⟩ := h.head
  exact skipWhite_append_cons hblank hc _

/-- Items without the white space in front of them; there is no bracket there. -/
theorem Items.trim {xs : List Tree} {t : Text} (h : Items xs t) :
    ∃ t', Items xs t' ∧ ∀ rest, skipWhite (t ++ rest) = t' ++ rest ∧
      (t' ++ rest).head? ≠ some 0x5D := by
  cases h with
  | one hl hx hr =>
      refine ⟨_, .one blank_nil hx hr, fun rest => ?_⟩
      obtain ⟨c, t, rfl, -, hc⟩ := hx.head
      rw [List.append_assoc, List.append_assoc, skipWhite_spells hl hx]
      simp only [List.nil_append, List.append_assoc]
      exact ⟨trivial, fun hhead => hc (Option.some.inj hhead)⟩
  | more hl hx hr hxs =>
      refine ⟨_, .more blank_nil hx hr hxs, fun rest => ?_⟩
      obtain ⟨c, t, rfl, -, hc⟩ := hx.head
      rw [List.append_assoc, List.append_assoc, skipWhite_spells hl hx]
      simp only [List.nil_append, List.append_assoc]
      exact ⟨trivial, fun hhead => hc (Option.some.inj hhead)⟩

/-- The same for members, which begin with a quote. -/
theorem Members.trim {members : List (Key × Tree)} {t : Text} (h : Members members t) :
    ∃ t', Members members t' ∧ ∀ rest, skipWhite (t ++ rest) = t' ++ rest ∧
      (t' ++ rest).head? = some 0x22 := by
  cases h with
  | one hl hm hn hx hr =>
      refine ⟨_, .one blank_nil hm hn hx hr, fun rest => ⟨?_, rfl⟩⟩
      rw [List.append_assoc]
      exact skipWhite_append_cons hl (by decide) _
  | more hl hm hn hx hr hmembers =>
      refine ⟨_, .more blank_nil hm hn hx hr hmembers, fun rest => ⟨?_, rfl⟩⟩
      rw [List.append_assoc]
      exact skipWhite_append_cons hl (by decide) _

/-- There are no more items than characters. -/
theorem Items.length_le : ∀ {xs : List Tree} {t : Text}, Items xs t → xs.length ≤ t.length
  | [x], _, .one _ hx _ => by
      obtain ⟨c, t, rfl, -, -⟩ := hx.head
      simp only [List.length_append, List.length_cons, List.length_nil]
      omega
  | x :: xs, _, .more _ _ _ hxs => by
      have ih := hxs.length_le
      simp only [List.length_append, List.length_cons]
      omega

theorem Members.length_le : ∀ {members : List (Key × Tree)} {t : Text}, Members members t →
    members.length ≤ t.length
  | [_], _, .one _ _ _ _ _ => by
      simp only [List.length_append, List.length_cons, List.length_nil]
      omega
  | _ :: members, _, .more _ _ _ _ _ hmembers => by
      have ih := hmembers.length_le
      simp only [List.length_append, List.length_cons]
      omega

end JsonGrammar
