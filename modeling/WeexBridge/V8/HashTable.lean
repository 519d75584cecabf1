/-
# `HashTable`

The hash table of the runtime: a power of two of entries, quadratic probing, holes where an
element has been.  `EnsureCapacity` keeps an entry undefined, so that no search goes round
for ever.

    findEntry              an element that matches a key
    findInsertionEntry     where an element of this hash is put
    ensureCapacity         room for one more, in a new table if need be
    Valid                  what every operation keeps
-/
import WeexBridge.Lib.Probing
import WeexBridge.V8.HeapString
import Mathlib.Data.Nat.Size

namespace WeexBridge.V8

open Probing

/-- `RoundUpToPowerOf2` -/
def roundUpToPowerOf2 (x : UInt32) : UInt32 :=
  let x := x - 1
  let x := x ||| (x >>> 1)
  let x := x ||| (x >>> 2)
  let x := x ||| (x >>> 4)
  let x := x ||| (x >>> 8)
  let x := x ||| (x >>> 16)
  x + 1

/-- The entries: `undefined` is empty, the hole is deleted. -/
structure HashTable (α : Type) where
  entries : List (Cell α)
  numberOfElements : Nat
  numberOfDeletedElements : Nat
  deriving DecidableEq, Repr

namespace HashTable

def kMinCapacity : Nat := 32

/-- `HashTable::kMaxCapacity`, for one word an entry. -/
def kMaxCapacity : Nat := 134217706

def firstProbe (hash size : Nat) : Nat := hash &&& (size - 1)

def nextProbe (last number size : Nat) : Nat := (last + number) &&& (size - 1)

def computeCapacity (atLeastSpaceFor : Nat) : Nat :=
  let capacity := (roundUpToPowerOf2 (.ofNat (atLeastSpaceFor * 2))).toNat
  if capacity < kMinCapacity then kMinCapacity else capacity

variable {α : Type}

/-- `Allocate`, where there is memory or not. -/
def allocate (atLeastSpaceFor : Nat) (memory : Bool) : MaybeObject (HashTable α) :=
  let capacity := computeCapacity atLeastSpaceFor
  if capacity > kMaxCapacity then none
  else if memory then some ⟨List.replicate capacity .empty, 0, 0⟩ else none

section
variable (table : HashTable α)

def capacity : Nat := table.entries.length

def elementAdded : HashTable α := { table with numberOfElements := table.numberOfElements + 1 }

def elementsRemoved (n : Nat) : HashTable α :=
  { table with
    numberOfElements := table.numberOfElements - n
    numberOfDeletedElements := table.numberOfDeletedElements + n }

def setEntry (entry : Nat) (a : α) : HashTable α :=
  { table with entries := table.entries.set entry (.full a) }

/-- The loop of `FindEntry`, which a full table would go round for ever.  No result where a
comparison has none. -/
def findEntryLoop (isMatch : α → Option Bool) : Nat → Nat → Nat → Option (Option Nat)
  | 0, _, _ => none
  | fuel + 1, entry, count =>
      match table.entries[entry]? with
      | none => none
      | some .empty => some none
      | some .deleted =>
          findEntryLoop isMatch fuel (nextProbe entry count table.capacity) (count + 1)
      | some (.full element) =>
          (isMatch element).bind fun same =>
            if same then some (some entry)
            else findEntryLoop isMatch fuel (nextProbe entry count table.capacity) (count + 1)

/-- `FindEntry`; `kNotFound` is `none` within. -/
def findEntry (hash : UInt32) (isMatch : α → Option Bool) : Option (Option Nat) :=
  table.findEntryLoop isMatch table.capacity (firstProbe hash.toNat table.capacity) 1

/-- The loop of `FindInsertionEntry`. -/
def findInsertionEntryLoop : Nat → Nat → Nat → Option Nat
  | 0, _, _ => none
  | fuel + 1, entry, count =>
      match table.entries[entry]? with
      | none => none
      | some (.full _) =>
          findInsertionEntryLoop fuel (nextProbe entry count table.capacity) (count + 1)
      | some _ => some entry

def findInsertionEntry (hash : UInt32) : Option Nat :=
  table.findInsertionEntryLoop table.capacity (firstProbe hash.toNat table.capacity) 1

end

/-- The loop of `Rehash` over the entries of the old table. -/
def rehashLoop (hashForObject : α → UInt32) : List (Cell α) → HashTable α → Option (HashTable α)
  | [], newTable => some newTable
  | .full k :: entries, newTable =>
      (newTable.findInsertionEntry (hashForObject k)).bind fun entry =>
        rehashLoop hashForObject entries (newTable.setEntry entry k)
  | _ :: entries, newTable => rehashLoop hashForObject entries newTable

/-- `Rehash` -/
def rehash (hashForObject : α → UInt32) (table newTable : HashTable α) : Option (HashTable α) :=
  (rehashLoop hashForObject table.entries newTable).map fun newTable =>
    { newTable with
      numberOfElements := table.numberOfElements
      numberOfDeletedElements := 0 }

/-- `EnsureCapacity` -/
def ensureCapacity (hashForObject : α → UInt32) (memory : Bool) (table : HashTable α) (n : Nat) :
    Option (MaybeObject (HashTable α)) :=
  let capacity := table.capacity
  let nof := table.numberOfElements + n
  let nod := table.numberOfDeletedElements
  if (nod : Int) ≤ ((capacity : Int) - nof) >>> (1 : Nat) ∧ nof + (nof >>> 1) ≤ capacity then
    some (some table)
  else match allocate (nof * 2) memory with
    | none => some none
    | some newTable => (rehash hashForObject table newTable).map some

/-! ## Capacities -/

/-- A bit is set if one of the `n` bits from it on is. -/
def Smeared (m n : Nat) (x : UInt32) : Prop :=
  ∀ i, x.toNat.testBit i = true ↔ ∃ j < n, m.testBit (i + j) = true

section
variable {m n : Nat} {x s : UInt32}

theorem smeared_one (hx : x.toNat = m) : Smeared m 1 x := by
  intro i
  rw [hx]
  constructor
  · intro hbit
    exact ⟨0, Nat.one_pos, hbit⟩
  · rintro ⟨j, hj, hbit⟩
    obtain rfl : j = 0 := by omega
    exact hbit

theorem Smeared.step (h : Smeared m n x) (hs : s.toNat = n) (hn : n < 32) :
    Smeared m (2 * n) (x ||| (x >>> s)) := by
  intro i
  rw [UInt32.toNat_or, UInt32.toNat_shiftRight, hs, Nat.mod_eq_of_lt hn, Nat.testBit_or,
    Nat.testBit_shiftRight, Bool.or_eq_true, h, h]
  constructor
  · rintro (⟨j, hj, hbit⟩ | ⟨j, hj, hbit⟩)
    · exact ⟨j, by omega, hbit⟩
    · have heq : n + i + j = i + (n + j) := by omega
      exact ⟨n + j, by omega, heq ▸ hbit⟩
  · rintro ⟨j, hj, hbit⟩
    by_cases hlow : j < n
    · exact .inl ⟨j, hlow, hbit⟩
    · refine .inr ⟨j - n, by omega, ?_⟩
      have heq : n + i + (j - n) = i + j := by omega
      rwa [heq]

/-- All bits from the highest one down are set. -/
theorem Smeared.toNat_eq (h : Smeared m 32 x) (hm : m < 2 ^ 32) : x.toNat = 2 ^ m.size - 1 := by
  refine Nat.eq_of_testBit_eq fun i => Bool.eq_iff_iff.mpr ?_
  rw [h, Nat.testBit_two_pow_sub_one, decide_eq_true_eq, Nat.lt_size]
  constructor
  · rintro ⟨j, -, hbit⟩
    exact Nat.le_trans (Nat.pow_le_pow_right (by decide) (Nat.le_add_right i j))
      (Nat.ge_two_pow_of_testBit hbit)
  · intro hle
    obtain ⟨k, hk, hbit⟩ := Nat.exists_ge_and_testBit_of_ge_two_pow hle
    have hlt : k < 32 := by
      by_contra hge
      have hpow := Nat.pow_le_pow_right (n := 2) (by decide) (Nat.not_lt.mp hge)
      exact absurd (Nat.ge_two_pow_of_testBit hbit) (by omega)
    refine ⟨k - i, by omega, ?_⟩
    rwa [Nat.add_sub_of_le hk]

theorem toNat_roundUpToPowerOf2 (hpos : 0 < x.toNat) (hle : x.toNat ≤ 2 ^ 31) :
    (roundUpToPowerOf2 x).toNat = 2 ^ (x.toNat - 1).size := by
  have hsize : (x.toNat - 1).size ≤ 31 := Nat.size_le.mpr (by omega)
  have hpow := Nat.pow_le_pow_right (n := 2) (by decide) hsize
  have hone : (1 : UInt32).toNat = 1 := rfl
  have hsmeared := ((((smeared_one (UInt32.toNat_sub_of_le x 1 hpos)).step (s := 1) rfl
    (by decide)).step (s := 2) rfl (by decide)).step (s := 4) rfl (by decide)).step (s := 8) rfl
    (by decide)
  have hall := (hsmeared.step (s := 16) rfl (by decide)).toNat_eq (by omega)
  unfold roundUpToPowerOf2
  dsimp only
  rw [UInt32.toNat_add, hall, hone, Nat.sub_add_cancel (Nat.two_pow_pos _),
    Nat.mod_eq_of_lt (by omega)]

end

/-- A capacity is a power of two and leaves room for as many again. -/
theorem computeCapacity_eq {n : Nat} (hn : n ≤ 2 ^ 30) :
    ∃ k, computeCapacity n = 2 ^ k ∧ kMinCapacity ≤ computeCapacity n ∧
      n * 2 ≤ computeCapacity n := by
  have htoNat : (UInt32.ofNat (n * 2)).toNat = n * 2 := UInt32.toNat_ofNat_of_lt' (by
    have : UInt32.size = 2 ^ 32 := rfl
    omega)
  unfold computeCapacity
  dsimp only
  rcases Nat.eq_zero_or_pos n with rfl | hpos
  · exact ⟨5, by decide, by decide, by decide⟩
  · have hround := toNat_roundUpToPowerOf2 (x := .ofNat (n * 2)) (by omega) (by omega)
    have hsize := Nat.lt_size_self (n * 2 - 1)
    rw [htoNat] at hround
    rw [hround]
    split_ifs with hsmall
    · exact ⟨5, rfl, Nat.le_refl _, by omega⟩
    · exact ⟨_, rfl, Nat.not_lt.mp hsmall, by omega⟩

/-! ## Searching -/

section
variable {hash : α → UInt32} {table : HashTable α} {k : Nat}

theorem firstProbe_eq (hsize : table.capacity = 2 ^ k) (wanted : Nat) :
    firstProbe wanted table.capacity = probe table.capacity wanted 0 := by
  rw [firstProbe, hsize, Nat.and_two_pow_sub_one_eq_mod, probe_zero]

theorem nextProbe_eq (hsize : table.capacity = 2 ^ k) (wanted n : Nat) :
    nextProbe (probe table.capacity wanted n) (n + 1) table.capacity =
      probe table.capacity wanted (n + 1) := by
  rw [nextProbe, hsize, Nat.and_two_pow_sub_one_eq_mod, probe_succ]

/-- What `FindEntry` gives where its walk ends. -/
def foundAt (table : HashTable α) (c : Nat) : Option Nat :=
  match table.entries[c]? with
  | some .empty => none
  | _ => some c

theorem exists_entry (hpos : 0 < table.capacity) (wanted n : Nat) :
    ∃ cell, table.entries[probe table.capacity wanted n]? = some cell :=
  ⟨_, List.getElem?_eq_getElem (probe_lt hpos n)⟩

theorem findEntryLoop_eq (hsize : table.capacity = 2 ^ k) {isMatch : α → Option Bool}
    {matching : α → Prop}
    (hmatch : ∀ a ∈ elements table.entries, ∃ same, isMatch a = some same ∧
      (same = true ↔ matching a)) {wanted last c : Nat}
    (hstops : StopsAt table.capacity wanted (Decides table.entries matching) last c)
    {fuel n : Nat} (hn : n ≤ last) (hfuel : last < fuel + n) :
    table.findEntryLoop isMatch fuel (probe table.capacity wanted n) (n + 1) =
      some (table.foundAt c) := by
  induction fuel generalizing n with
  | zero => omega
  | succ fuel ih =>
      unfold findEntryLoop
      rcases Nat.lt_or_eq_of_le hn with hlt | rfl
      · -- the walk goes on
        have hgoes := hstops.before n hlt
        have hnext := ih (Nat.succ_le_of_lt hlt) (by omega)
        rw [← nextProbe_eq hsize] at hnext
        obtain ⟨cell, hcell⟩ := exists_entry (hsize ▸ Nat.two_pow_pos k) wanted n
        rw [hcell]
        cases cell with
        | empty => exact absurd (.inl hcell) hgoes
        | deleted => exact hnext
        | full a =>
            obtain ⟨same, hsame, hmatching⟩ := hmatch a (mem_elements.mpr ⟨_, hcell⟩)
            dsimp only
            rw [hsame, Option.bind_some, if_neg]
            · exact hnext
            · exact fun htrue => hgoes (.inr ⟨a, hcell, hmatching.mp htrue⟩)
      · rw [hstops.reached, foundAt]
        rcases hstops.stopped with hempty | ⟨a, hfull, ha⟩
        · rw [hempty]
        · obtain ⟨same, hsame, hmatching⟩ := hmatch a (mem_elements.mpr ⟨_, hfull⟩)
          rw [hfull]
          dsimp only
          rw [hsame, Option.bind_some, if_pos (hmatching.mpr ha)]

theorem findInsertionEntryLoop_eq (hsize : table.capacity = 2 ^ k) {wanted last c : Nat}
    (hstops : StopsAt table.capacity wanted (Free table.entries) last c)
    {fuel n : Nat} (hn : n ≤ last) (hfuel : last < fuel + n) :
    table.findInsertionEntryLoop fuel (probe table.capacity wanted n) (n + 1) = some c := by
  induction fuel generalizing n with
  | zero => omega
  | succ fuel ih =>
      unfold findInsertionEntryLoop
      rcases Nat.lt_or_eq_of_le hn with hlt | rfl
      · have hgoes := hstops.before n hlt
        have hnext := ih (Nat.succ_le_of_lt hlt) (by omega)
        rw [← nextProbe_eq hsize] at hnext
        obtain ⟨cell, hcell⟩ := exists_entry (hsize ▸ Nat.two_pow_pos k) wanted n
        rw [hcell]
        cases cell with
        | empty => exact absurd (.inl hcell) hgoes
        | deleted => exact absurd (.inr hcell) hgoes
        | full a => exact hnext
      · rw [hstops.reached]
        rcases hstops.stopped with hempty | hdeleted
        · rw [hempty]
        · rw [hdeleted]

end

/-! ## The invariant -/

/-- What the table keeps. -/
structure Valid (hash : α → UInt32) (table : HashTable α) : Prop where
  size : ∃ k, table.capacity = 2 ^ k
  bounds : 2 ≤ table.capacity ∧ table.capacity ≤ kMaxCapacity
  hashed : Hashed (fun a => (hash a).toNat) table.entries
  elements : table.numberOfElements = (elements table.entries).length
  deleted : deletedCells table.entries ≤ table.numberOfDeletedElements
  room : 0 < emptyCells table.entries

section
variable {hash : α → UInt32} {table : HashTable α}

theorem Valid.congr {hash' : α → UInt32} (h : Valid hash table)
    (hsame : ∀ a ∈ Probing.elements table.entries, hash' a = hash a) : Valid hash' table where
  size := h.size
  bounds := h.bounds
  hashed := h.hashed.mono rfl
    (fun hc => ⟨hc, congrArg UInt32.toNat (hsame _ (mem_elements.mpr ⟨_, hc⟩))⟩) id
  elements := h.elements
  deleted := h.deleted
  room := h.room

/-- A search finds an element that matches; if there is one of the hash that is wanted, it is
found. -/
theorem Valid.findEntry (h : Valid hash table) {isMatch : α → Option Bool} {matching : α → Prop}
    (hmatch : ∀ a ∈ Probing.elements table.entries, ∃ same, isMatch a = some same ∧
      (same = true ↔ matching a)) (wanted : UInt32) :
    (∃ c a, table.findEntry wanted isMatch = some (some c) ∧
      table.entries[c]? = some (.full a) ∧ matching a) ∨
    table.findEntry wanted isMatch = some none ∧
      ((∀ a ∈ Probing.elements table.entries, matching a →
        (hash a).toNat % table.capacity = wanted.toNat % table.capacity) →
      ∀ a ∈ Probing.elements table.entries, ¬ matching a) := by
  obtain ⟨k, hsize⟩ := h.size
  obtain ⟨n, c, hstops⟩ := exists_decided h.room hsize matching wanted.toNat
  have hloop := findEntryLoop_eq hsize hmatch hstops (Nat.zero_le n)
    (Nat.lt_add_right 0 hstops.inside)
  rw [← firstProbe_eq hsize] at hloop
  unfold HashTable.findEntry
  rcases hstops.stopped with hempty | ⟨a, hfull, ha⟩
  · rw [foundAt, hempty] at hloop
    exact .inr ⟨hloop, fun hwanted => h.hashed.not_matching hwanted hstops hempty⟩
  · rw [foundAt, hfull] at hloop
    exact .inl ⟨c, a, hloop, hfull, ha⟩

theorem findInsertionEntry_eq {k : Nat} (hsize : table.capacity = 2 ^ k)
    (hroom : 0 < emptyCells table.entries) (wanted : UInt32) :
    ∃ n c, table.findInsertionEntry wanted = some c ∧
      StopsAt table.capacity wanted.toNat (Free table.entries) n c := by
  obtain ⟨n, c, hstops⟩ := exists_free hroom hsize wanted.toNat
  have hloop := findInsertionEntryLoop_eq hsize hstops (Nat.zero_le n)
    (Nat.lt_add_right 0 hstops.inside)
  rw [← firstProbe_eq hsize] at hloop
  exact ⟨n, c, hloop, hstops⟩

/-- An element is added where it is looked for. -/
theorem Valid.insert (h : Valid hash table) (hmore : 1 < emptyCells table.entries) (a : α) :
    ∃ c, table.findInsertionEntry (hash a) = some c ∧
      Valid hash (table.setEntry c a).elementAdded ∧
      (Probing.elements (table.setEntry c a).entries).Perm
        (a :: Probing.elements table.entries) := by
  obtain ⟨k, hsize⟩ := h.size
  obtain ⟨n, c, hentry, hstops⟩ := findInsertionEntry_eq hsize h.room (hash a)
  obtain ⟨hperm, hdeleted⟩ := elements_insert (a := a) hstops.stopped
  have hcapacity : (table.setEntry c a).elementAdded.capacity = table.capacity := List.length_set
  refine ⟨c, hentry, ⟨⟨k, hcapacity.trans hsize⟩, ?_, h.hashed.insert hstops, ?_, ?_, ?_⟩, hperm⟩
  · rw [hcapacity]
    exact h.bounds
  · show table.numberOfElements + 1 = _
    rw [h.elements]
    exact hperm.length_eq.symm
  · exact Nat.le_trans hdeleted h.deleted
  · have hcounts := counts_eq table.entries
    have hcounts' := counts_eq (table.setEntry c a).entries
    have hlength : (table.setEntry c a).entries.length = table.entries.length := hcapacity
    have hone := hperm.length_eq
    rw [List.length_cons] at hone
    change 0 < emptyCells (table.setEntry c a).entries
    change deletedCells (table.setEntry c a).entries ≤ _ at hdeleted
    change (Probing.elements (table.setEntry c a).entries).length = _ at hone
    omega

/-! ## A new table -/

/-- `Rehash` puts every element of the old table into the new one. -/
theorem rehashLoop_eq {k : Nat} {old : List (Cell α)} {newTable : HashTable α}
    (hsize : newTable.capacity = 2 ^ k)
    (hhashed : Hashed (fun a => (hash a).toNat) newTable.entries)
    (hdeleted : deletedCells newTable.entries = 0)
    (hroom : (elements newTable.entries).length + (elements old).length < newTable.capacity) :
    ∃ result, rehashLoop hash old newTable = some result ∧
      result.capacity = newTable.capacity ∧
      Hashed (fun a => (hash a).toNat) result.entries ∧ deletedCells result.entries = 0 ∧
      (elements result.entries).Perm (elements old ++ elements newTable.entries) := by
  induction old generalizing newTable with
  | nil => exact ⟨newTable, rfl, rfl, hhashed, hdeleted, List.Perm.refl _⟩
  | cons cell old ih =>
      cases cell with
      | empty => exact ih hsize hhashed hdeleted hroom
      | deleted => exact ih hsize hhashed hdeleted hroom
      | full a =>
          have hcounts := counts_eq newTable.entries
          have hold : (elements (Cell.full a :: old)).length = (elements old).length + 1 := rfl
          have hempty : 0 < emptyCells newTable.entries := by
            unfold capacity at hroom
            omega
          obtain ⟨n, c, hentry, hstops⟩ := findInsertionEntry_eq hsize hempty (hash a)
          obtain ⟨hperm, hdeleted'⟩ := elements_insert (a := a) hstops.stopped
          have hcapacity : (newTable.setEntry c a).capacity = newTable.capacity := List.length_set
          have hone := hperm.length_eq
          rw [List.length_cons] at hone
          obtain ⟨result, hloop, hresult, hhashed', hnone, hall⟩ :=
            @ih (newTable.setEntry c a) (hcapacity.trans hsize) (hhashed.insert hstops)
              (Nat.le_zero.mp (hdeleted ▸ hdeleted')) (by
                rw [hcapacity]
                change (elements (newTable.setEntry c a).entries).length = _ at hone
                omega)
          refine ⟨result, ?_, hresult.trans hcapacity, hhashed', hnone, ?_⟩
          · unfold rehashLoop
            rw [hentry, Option.bind_some, hloop]
          · exact hall.trans ((hperm.append_left _).trans List.perm_middle)

theorem hashed_replicate (n : Nat) :
    Hashed (fun a => (hash a).toNat) (List.replicate n (Cell.empty : Cell α)) := by
  intro c a hc
  cases List.eq_of_mem_replicate (List.mem_of_getElem? hc)

theorem elements_replicate (n : Nat) : elements (List.replicate n (Cell.empty : Cell α)) = [] := by
  unfold elements
  rw [List.filterMap_replicate_of_none rfl]

theorem deletedCells_replicate (n : Nat) :
    deletedCells (List.replicate n (Cell.empty : Cell α)) = 0 := by
  unfold deletedCells
  rw [List.countP_replicate]
  rfl

/-- There is room for one more, or no memory. -/
theorem Valid.ensureCapacity (h : Valid hash table) (memory : Bool) :
    ensureCapacity hash memory table 1 = some none ∨
    ∃ result, ensureCapacity hash memory table 1 = some (some result) ∧ Valid hash result ∧
      1 < emptyCells result.entries ∧
      (Probing.elements result.entries).Perm (Probing.elements table.entries) := by
  have hcounts := counts_eq table.entries
  have helements := h.elements
  have hdeleted := h.deleted
  have hroom := h.room
  have hbounds := h.bounds
  unfold kMaxCapacity at hbounds
  unfold HashTable.ensureCapacity
  dsimp only
  split_ifs with henough
  · refine .inr ⟨table, rfl, h, ?_, List.Perm.refl _⟩
    rw [Int.shiftRight_eq_div_pow, Nat.shiftRight_eq_div_pow] at henough
    unfold capacity at henough hbounds
    omega
  · unfold capacity at hbounds
    obtain ⟨k, hpower, hmin, hdouble⟩ :=
      @computeCapacity_eq ((table.numberOfElements + 1) * 2) (by omega)
    unfold allocate
    dsimp only
    split_ifs with hlarge hmemory
    · exact .inl rfl
    · -- the new table
      generalize computeCapacity ((table.numberOfElements + 1) * 2) = capacity at *
      have hcapacity : (⟨List.replicate capacity .empty, 0, 0⟩ : HashTable α).capacity = capacity :=
        List.length_replicate
      obtain ⟨result, hloop, hresult, hhashed, hnone, hperm⟩ :=
        @rehashLoop_eq α hash k table.entries ⟨List.replicate capacity .empty, 0, 0⟩
          (hcapacity.trans hpower) (hashed_replicate capacity) (deletedCells_replicate capacity) (by
            rw [hcapacity, elements_replicate, List.length_nil]
            omega)
      rw [elements_replicate, List.append_nil] at hperm
      have hcounts' := counts_eq result.entries
      have hlength := hperm.length_eq
      have hentries : result.entries.length = capacity := hresult.trans hcapacity
      refine .inr ⟨{ result with
        numberOfElements := table.numberOfElements, numberOfDeletedElements := 0 }, ?_,
        ⟨⟨k, hentries.trans hpower⟩, ⟨?_, ?_⟩, hhashed, helements.trans hlength.symm,
          Nat.le_of_eq hnone, ?_⟩, ?_, hperm⟩
      · dsimp only
        unfold rehash
        rw [hloop]
        rfl
      · show 2 ≤ result.entries.length
        unfold kMinCapacity at hmin
        omega
      · show result.entries.length ≤ kMaxCapacity
        omega
      · show 0 < emptyCells result.entries
        omega
      · show 1 < emptyCells result.entries
        omega
    · exact .inl rfl

/-- A new table is empty. -/
theorem allocate_eq {n : Nat} (hn : n ≤ 2 ^ 30) {memory : Bool}
    (h : allocate n memory = some table) :
    Valid hash table ∧ Probing.elements table.entries = [] := by
  obtain ⟨k, hpower, hmin, -⟩ := computeCapacity_eq hn
  have hcounts := counts_eq (List.replicate (computeCapacity n) (Cell.empty : Cell α))
  unfold allocate at h
  dsimp only at h
  split_ifs at h with hlarge
  cases h
  rw [elements_replicate, deletedCells_replicate, List.length_replicate, List.length_nil] at hcounts
  have hcapacity : (⟨List.replicate (computeCapacity n) .empty, 0, 0⟩ : HashTable α).capacity =
      computeCapacity n := List.length_replicate
  unfold kMinCapacity at hmin
  refine ⟨⟨⟨k, hcapacity.trans hpower⟩, ⟨?_, ?_⟩, hashed_replicate _, ?_, ?_, ?_⟩,
    elements_replicate _⟩
  · rw [hcapacity]
    omega
  · rw [hcapacity]
    exact Nat.not_lt.mp hlarge
  · rw [elements_replicate]
    rfl
  · exact Nat.le_of_eq (deletedCells_replicate _)
  · change 0 < emptyCells (List.replicate (computeCapacity n) (Cell.empty : Cell α))
    omega

/-- Elements are taken out, and counted. -/
theorem Valid.retain (h : Valid hash table) {keep : α → Bool} {removed : Nat}
    (hremoved : removed + ((Probing.elements table.entries).filter keep).length =
      (Probing.elements table.entries).length) :
    Valid hash ({ table with entries := Probing.retain keep table.entries }.elementsRemoved
      removed) := by
  have hlength := length_retain keep table.entries
  have hcounts := counts_eq table.entries
  have hcounts' := counts_eq (Probing.retain keep table.entries)
  have hsize := h.size
  have hbounds := h.bounds
  have helements := h.elements
  have hdeleted := h.deleted
  rw [hlength, elements_retain, emptyCells_retain] at hcounts'
  unfold capacity at hsize hbounds
  rw [← hlength] at hsize hbounds
  refine ⟨hsize, hbounds, h.hashed.retain keep, ?_, ?_, ?_⟩
  · change table.numberOfElements - removed =
      (Probing.elements (Probing.retain keep table.entries)).length
    rw [elements_retain]
    omega
  · change deletedCells (Probing.retain keep table.entries) ≤
      table.numberOfDeletedElements + removed
    omega
  · change 0 < emptyCells (Probing.retain keep table.entries)
    rw [emptyCells_retain]
    exact h.room

end

end HashTable

end WeexBridge.V8
