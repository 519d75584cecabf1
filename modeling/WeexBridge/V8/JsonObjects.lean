/-
# The objects that `JSON.parse` makes

A key of an object counts as an index by its spelling: it must be written, without an
escape, as the numeral of a number of 32 bits.  Any other key is a name, even one whose
characters are those of a numeral.  Of members with the same key the last one counts, the
elements are in the order of their indices, and a name stands where it first came.
-/
import WeexBridge.V8.JsonParsing

namespace WeexBridge.V8

open Decimal JsonGrammar

namespace JsonParser

/-! ## Keys that are indices -/

theorem scanIndexLoop_eq_iff {t : Text} {i n : Nat} (hi : i < 2 ^ 32) :
    scanIndexLoop i t = (n, []) ↔ Digits t ∧ valueFrom i t = n ∧ n < 2 ^ 32 := by
  induction t generalizing i with
  | nil =>
      constructor
      · intro h
        cases h
        exact ⟨fun _ h => absurd h List.not_mem_nil, rfl, hi⟩
      · rintro ⟨-, rfl, -⟩
        rfl
  | cons c t ih =>
      unfold scanIndexLoop
      dsimp only
      cases hc : isDecimalDigit c with
      | false =>
          rw [if_neg Bool.false_ne_true]
          refine ⟨fun h => (by cases h), fun h => ?_⟩
          cases hc.symm.trans (h.1 c List.mem_cons_self)
      | true =>
          have hguard := overflow_iff i (digitValue_lt hc)
          unfold digitValue at hguard
          rw [if_pos rfl]
          by_cases hfits : i * 10 + digitValue c < 2 ^ 32
          · have hrest := ih hfits
            unfold digitValue at hrest
            rw [if_neg fun h => hguard.mp h hfits, hrest]
            exact ⟨fun h => ⟨h.1.cons hc, h.2⟩, fun h => ⟨h.1.tail, h.2⟩⟩
          · rw [if_pos (hguard.mpr hfits)]
            refine ⟨fun h => (by cases h), fun h => ?_⟩
            have hle := le_valueFrom t (i * 10 + digitValue c)
            have hvalue : valueFrom (i * 10 + digitValue c) t = n := h.2.1
            exact absurd (Nat.lt_of_le_of_lt (hvalue ▸ hle) h.2.2) hfits

/-- The keys that are indices are the numerals of the numbers of 32 bits. -/
theorem keyIndex_eq_some_iff {raw : Text} {n : Nat} :
    keyIndex raw = some n ↔ raw = numeral n ∧ n < 2 ^ 32 := by
  have hindex : keyIndex raw = some n ↔
      startsWithDigit raw = true ∧ scanIndex raw = (n, []) := by
    unfold keyIndex
    split_ifs with h
    · rw [Option.some.injEq]
      refine ⟨fun hn => ⟨h.1, ?_⟩, fun hn => by rw [hn.2]⟩
      rw [← hn, ← h.2]
    · refine ⟨fun hn => (nomatch hn), fun hn => absurd ⟨hn.1, ?_⟩ h⟩
      rw [hn.2]
  rw [hindex, eq_numeral_iff]
  cases raw with
  | nil => exact ⟨fun h => absurd h.1 (by decide), fun h => by cases h.1.1⟩
  | cons c t =>
      by_cases hzero : c = 0x30
      · subst hzero
        constructor
        · rintro ⟨-, h⟩
          cases h
          exact ⟨⟨.zero, rfl⟩, by decide⟩
        · rintro ⟨⟨hnumeral, rfl⟩, -⟩
          cases hnumeral with
          | zero => exact ⟨rfl, rfl⟩
          | digits _ hne _ => exact absurd rfl hne
      · have hloop : scanIndex (c :: t) = scanIndexLoop 0 (c :: t) :=
          if_neg fun h => hzero (Option.some.inj h)
        rw [hloop, scanIndexLoop_eq_iff (by decide)]
        constructor
        · rintro ⟨-, hdigits, hvalue, hn⟩
          exact ⟨⟨.digits (hdigits c List.mem_cons_self) hzero hdigits.tail, hvalue⟩, hn⟩
        · rintro ⟨⟨hnumeral, hvalue⟩, hn⟩
          exact ⟨hnumeral.isDigits c List.mem_cons_self, hnumeral.isDigits, hvalue, hn⟩

/-- What a key is: an index, if it is written as the numeral of a number of 32 bits. -/
def propertyKey (k : Key) : MemberKey :=
  if k.raw = numeral (value k.raw) ∧ value k.raw < 2 ^ 32 then .element (value k.raw)
  else .named k.units

theorem memberKey_eq (k : Key) : memberKey k = propertyKey k := by
  unfold memberKey propertyKey
  cases hindex : keyIndex k.raw with
  | none =>
      rw [if_neg fun h => ?_]
      cases hindex.symm.trans (keyIndex_eq_some_iff.mpr h)
  | some index =>
      obtain ⟨hraw, hindex⟩ := keyIndex_eq_some_iff.mp hindex
      have hvalue : value k.raw = index := by rw [hraw, value_numeral]
      rw [hvalue, if_pos ⟨hraw, hindex⟩]

/-! ## Properties -/

namespace Properties

/-- The value of a property. -/
def find (properties : Properties) : MemberKey → Option JsonValue
  | .element index => (properties.elements.find? fun e => e.1 = index).map Prod.snd
  | .named name => (properties.named.find? fun p => p.1 = name).map Prod.snd

theorem find_setElement_self (index : Nat) (value : JsonValue) :
    ∀ elements : List (Nat × JsonValue),
      ((setElement index value elements).find? fun e => e.1 = index) = some (index, value)
  | [] => List.find?_cons_of_pos (decide_eq_true rfl)
  | (i, v) :: elements => by
      unfold setElement
      split_ifs with hlt heq
      · exact List.find?_cons_of_pos (decide_eq_true rfl)
      · exact List.find?_cons_of_pos (decide_eq_true rfl)
      · rw [List.find?_cons_of_neg (by simpa using fun h : i = index => heq h.symm)]
        exact find_setElement_self index value elements

theorem find_setElement_of_ne {index other : Nat} (hne : other ≠ index) (value : JsonValue) :
    ∀ elements : List (Nat × JsonValue),
      ((setElement index value elements).find? fun e => e.1 = other) =
        elements.find? fun e => e.1 = other
  | [] => List.find?_cons_of_neg (by simpa using hne.symm)
  | (i, v) :: elements => by
      unfold setElement
      split_ifs with hlt heq
      · exact List.find?_cons_of_neg (by simpa using hne.symm)
      · subst heq
        rw [List.find?_cons_of_neg (by simpa using hne.symm),
          List.find?_cons_of_neg (by simpa using hne.symm)]
      · rw [List.find?_cons, List.find?_cons, find_setElement_of_ne hne value elements]

theorem find_setNamed_self (key : List UInt16) (value : JsonValue) :
    ∀ named : List (List UInt16 × JsonValue),
      ((setNamed key value named).find? fun p => p.1 = key) = some (key, value)
  | [] => List.find?_cons_of_pos (decide_eq_true rfl)
  | (k, v) :: named => by
      unfold setNamed
      split_ifs with heq
      · exact List.find?_cons_of_pos (decide_eq_true rfl)
      · rw [List.find?_cons_of_neg (by simpa using fun h : k = key => heq h.symm)]
        exact find_setNamed_self key value named

theorem find_setNamed_of_ne {key other : List UInt16} (hne : other ≠ key) (value : JsonValue) :
    ∀ named : List (List UInt16 × JsonValue),
      ((setNamed key value named).find? fun p => p.1 = other) = named.find? fun p => p.1 = other
  | [] => List.find?_cons_of_neg (by simpa using hne.symm)
  | (k, v) :: named => by
      unfold setNamed
      split_ifs with heq
      · subst heq
        rw [List.find?_cons_of_neg (by simpa using hne.symm),
          List.find?_cons_of_neg (by simpa using hne.symm)]
      · rw [List.find?_cons, List.find?_cons, find_setNamed_of_ne hne value named]

theorem find_set (key other : MemberKey) (value : JsonValue) (properties : Properties) :
    (properties.set key value).find other =
      if other = key then some value else properties.find other := by
  split_ifs with h
  · subst h
    cases other with
    | element index => exact congrArg (Option.map Prod.snd) (find_setElement_self index value _)
    | named name => exact congrArg (Option.map Prod.snd) (find_setNamed_self name value _)
  · cases key with
    | element index =>
        cases other with
        | element other =>
            exact congrArg (Option.map Prod.snd)
              (find_setElement_of_ne (fun heq => h (congrArg _ heq)) value _)
        | named name => rfl
    | named name =>
        cases other with
        | element other => rfl
        | named other =>
            exact congrArg (Option.map Prod.snd)
              (find_setNamed_of_ne (fun heq => h (congrArg _ heq)) value _)

end Properties

/-! ## The members of an object -/

/-- The last member with a key. -/
def lastMember (key : MemberKey) (members : List (Key × Tree)) : Option Tree :=
  (members.reverse.find? fun member => propertyKey member.1 = key).map Prod.snd

/-- The name that a key is, if it is one. -/
def memberName (k : Key) : Option (List UInt16) :=
  match propertyKey k with
  | .element _ => none
  | .named name => some name

theorem lastMember_cons (key : MemberKey) (k : Key) (x : Tree) (members : List (Key × Tree)) :
    lastMember key ((k, x) :: members) =
      (lastMember key members).or (if propertyKey k = key then some x else none) := by
  unfold lastMember
  rw [List.reverse_cons, List.find?_append]
  cases (members.reverse.find? fun member => propertyKey member.1 = key) with
  | some member => rfl
  | none =>
      rw [Option.none_or]
      split_ifs with h
      · have hfound : [(k, x)].find? (fun member => propertyKey member.1 = key) = some (k, x) :=
          List.find?_cons_of_pos (decide_eq_true h)
        rw [hfound]
        rfl
      · have hnone : [(k, x)].find? (fun member => propertyKey member.1 = key) = none :=
          List.find?_cons_of_neg (by simpa using h)
        rw [hnone]
        rfl

section
variable (stringToDouble : List UInt8 → UInt64)

/-- What is stored last is found. -/
theorem find_evalMembers (key : MemberKey) : ∀ (members : List (Key × Tree))
    (properties : Properties), (evalMembers stringToDouble members properties).find key =
      ((lastMember key members).map (eval stringToDouble)).or (properties.find key)
  | [], _ => rfl
  | (k, x) :: members, properties => by
      show (evalMembers stringToDouble members (properties.set (memberKey k) _)).find key = _
      rw [memberKey_eq, find_evalMembers key members, Properties.find_set, lastMember_cons,
        Option.map_or,
        Option.or_assoc]
      congr 1
      by_cases h : propertyKey k = key
      · rw [if_pos h.symm, if_pos h]
        rfl
      · rw [if_neg fun heq => h heq.symm, if_neg h]
        rfl

/-- The indices of the elements, in order. -/
def Ascending (elements : List (Nat × JsonValue)) : Prop :=
  elements.Pairwise fun a b => a.1 < b.1

theorem mem_setElement {index : Nat} {value : JsonValue} :
    ∀ {elements : List (Nat × JsonValue)} {e : Nat × JsonValue},
      e ∈ Properties.setElement index value elements → e = (index, value) ∨ e ∈ elements
  | [], _, h => .inl (List.mem_singleton.mp h)
  | (i, v) :: elements, e, h => by
      unfold Properties.setElement at h
      split_ifs at h
      · exact (List.mem_cons.mp h)
      · rcases List.mem_cons.mp h with h | h
        · exact .inl h
        · exact .inr (List.mem_cons_of_mem _ h)
      · rcases List.mem_cons.mp h with h | h
        · exact .inr (h ▸ List.mem_cons_self)
        · exact (mem_setElement h).imp_right (List.mem_cons_of_mem _)

theorem ascending_setElement (index : Nat) (value : JsonValue) :
    ∀ {elements : List (Nat × JsonValue)}, Ascending elements →
      Ascending (Properties.setElement index value elements)
  | [], _ => List.pairwise_singleton _ _
  | (i, v) :: elements, h => by
      obtain ⟨hfirst, hrest⟩ := List.pairwise_cons.mp h
      unfold Properties.setElement
      split_ifs with hlt heq
      · refine List.pairwise_cons.mpr ⟨fun e he => ?_, h⟩
        rcases List.mem_cons.mp he with rfl | he
        · exact hlt
        · exact Nat.lt_trans hlt (hfirst e he)
      · subst heq
        exact List.pairwise_cons.mpr ⟨hfirst, hrest⟩
      · refine List.pairwise_cons.mpr ⟨fun e he => ?_, ascending_setElement index value hrest⟩
        rcases mem_setElement he with rfl | he
        · show i < index
          omega
        · exact hfirst e he

theorem ascending_evalMembers : ∀ (members : List (Key × Tree)) {properties : Properties},
    Ascending properties.elements →
      Ascending (evalMembers stringToDouble members properties).elements
  | [], _, h => h
  | (k, x) :: members, properties, h => by
      refine ascending_evalMembers members ?_
      rw [memberKey_eq]
      cases propertyKey k with
      | element index => exact ascending_setElement index _ h
      | named name => exact h

/-- The names in the order in which they are enumerated. -/
def names (named : List (List UInt16 × JsonValue)) : List (List UInt16) := named.map Prod.fst

theorem names_setNamed (key : List UInt16) (value : JsonValue) :
    ∀ named : List (List UInt16 × JsonValue), names (Properties.setNamed key value named) =
      if key ∈ names named then names named else names named ++ [key]
  | [] => rfl
  | (k, v) :: named => by
      have ih := names_setNamed key value named
      unfold Properties.setNamed
      split_ifs with heq hmem hmem
      · subst heq
        rfl
      · exact absurd (heq ▸ List.mem_cons_self) hmem
      · have hrest : key ∈ names named := (List.mem_cons.mp hmem).resolve_left heq
        rw [if_pos hrest] at ih
        exact congrArg (k :: ·) ih
      · have hrest : key ∉ names named := fun h => hmem (List.mem_cons_of_mem k h)
        rw [if_neg hrest] at ih
        exact congrArg (k :: ·) ih

/-- A name that is stored joins those before it. -/
theorem names_set {named : List (List UInt16 × JsonValue)} {before : List (List UInt16)}
    (h : names named = before.eraseDups) (key : List UInt16) (value : JsonValue) :
    names (Properties.setNamed key value named) = (before ++ [key]).eraseDups := by
  rw [names_setNamed, h, List.eraseDups_append]
  by_cases hmem : key ∈ before
  · rw [if_pos (List.mem_eraseDups.mpr hmem)]
    simp [List.removeAll, hmem]
  · rw [if_neg fun h => hmem (List.mem_eraseDups.mp h)]
    simp [List.removeAll, hmem, List.eraseDups_cons]

theorem names_evalMembers : ∀ (members : List (Key × Tree)) {properties : Properties}
    {before : List (List UInt16)}, names properties.named = before.eraseDups →
    names (evalMembers stringToDouble members properties).named =
      (before ++ members.filterMap fun member => memberName member.1).eraseDups
  | [], _, _, h => by
      rw [List.filterMap_nil, List.append_nil]
      exact h
  | (k, x) :: members, properties, before, h => by
      show names (evalMembers stringToDouble members (properties.set (memberKey k) _)).named = _
      rw [memberKey_eq, List.filterMap_cons]
      unfold memberName
      dsimp only
      cases propertyKey k with
      | element index => exact names_evalMembers members h
      | named name =>
          rw [names_evalMembers members (names_set h name (eval stringToDouble x)),
            List.append_assoc]
          rfl

end

end JsonParser

open JsonParser

/-- The object of a text: its elements are in the order of their indices, its names in the
order in which they first come, and each property has the value of the last member with its
key. -/
theorem runtimeParseJson_object (platform : ParserPlatform) (fill : Nat → UInt16)
    (allocated : Bool) (limit : Nat) {s : Str} (h : s.WellFormed)
    {elements : List (Nat × JsonValue)} {named : List (List UInt16 × JsonValue)}
    (hparse : runtimeParseJson platform fill allocated limit s = .ok (.object elements named)) :
    ∃ members, Denotes s.units (.object members) ∧ Ascending elements ∧
      names named = (members.filterMap fun member => memberName member.1).eraseDups ∧
      ∀ key, (Properties.mk elements named).find key =
        (lastMember key members).map (eval platform.stringToDouble) := by
  obtain ⟨x, hx, -, hvalue⟩ := denotes_of_runtimeParseJson h hparse
  cases x with
  | object members =>
      cases hvalue
      refine ⟨members, hx, ?_, ?_, fun key => ?_⟩
      · exact ascending_evalMembers _ members List.Pairwise.nil
      · have hempty : names Properties.empty.named = [].eraseDups := rfl
        exact names_evalMembers _ members hempty
      · rw [find_evalMembers]
        cases key <;> exact Option.or_none
  | _ => cases hvalue

/-- An object is parsed. -/
def isObject : Except ParseError JsonValue → Bool
  | .ok (.object _ _) => true
  | _ => false

theorem exists_object {r : Except ParseError JsonValue} (h : isObject r = true) :
    ∃ elements named, r = .ok (.object elements named) := by
  unfold isObject at h
  split at h
  · exact ⟨_, _, rfl⟩
  · cases h

/-- A key that comes twice, and one that is an index. -/
theorem runtimeParseJson_object_repeated :
    ∃ elements named members, Denotes (Str.ofAscii "\x7b\"b\":1,\"7\":2,\"b\":3\x7d").units
      (.object members) ∧ Ascending elements ∧
      names named = (members.filterMap fun member => memberName member.1).eraseDups ∧
      ∀ key, (Properties.mk elements named).find key =
        (lastMember key members).map (eval ParserPlatform.plain.stringToDouble) := by
  obtain ⟨elements, named, hparse⟩ := exists_object (r := runtimeParseJson .plain
    (fun _ => 0) true 2 (.ofAscii "\x7b\"b\":1,\"7\":2,\"b\":3\x7d")) (by decide +kernel)
  exact ⟨elements, named,
    runtimeParseJson_object .plain (fun _ => 0) true 2 (Str.wellFormed_ofAscii _) hparse⟩

end WeexBridge.V8
