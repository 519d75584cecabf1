/-
# The iterator over cons strings

`ConsStringIteratorOp` gives the leaves of a cons string from left to right.  It keeps the
nodes whose right part is still to be visited, in a ring of 32 frames.  Once it has come
back up to a node that has been written over, it searches again from the root for the
character at which it stands.

    leaves      the parts of a string that are no cons strings
    pending     the leaves to the right of the frames
    Between     the state of the iterator between two calls
-/
import WeexBridge.Lib.Ring
import WeexBridge.V8.HeapString

namespace WeexBridge.V8

/-- A `ConsString*`. -/
structure ConsString where
  oneByte : Bool
  first : Str
  second : Str
  deriving DecidableEq, Repr

def ConsString.toStr (node : ConsString) : Str := .cons node.oneByte node.first node.second

/-- The members of `ConsStringIteratorOp`.  A frame has no string before one is put
there, and there is no root before `Operate`. -/
structure ConsStringIteratorOp where
  depth : Nat
  maximumDepth : Nat
  frames : Nat → Option ConsString
  consumed : Nat
  root : Option ConsString

namespace ConsStringIteratorOp

def kStackSize : Nat := 32

def kDepthMask : Nat := kStackSize - 1

def offsetForDepth (depth : Nat) : Nat := depth &&& kDepthMask

/-- The members are not initialised; whoever has an iterator resets it first. -/
def new : ConsStringIteratorOp := ⟨0, 0, fun _ => none, 0, none⟩

section
variable (op : ConsStringIteratorOp)

/-- `frames_[i] = string` -/
def setFrame (i : Nat) (string : ConsString) : ConsStringIteratorOp :=
  { op with frames := fun j => if j = i then some string else op.frames j }

def pushLeft (string : ConsString) : ConsStringIteratorOp :=
  { op.setFrame (offsetForDepth op.depth) string with depth := op.depth + 1 }

def pushRight (string : ConsString) : ConsStringIteratorOp :=
  op.setFrame (offsetForDepth (op.depth - 1)) string

def adjustMaximumDepth : ConsStringIteratorOp :=
  if op.depth > op.maximumDepth then { op with maximumDepth := op.depth } else op

def pop : ConsStringIteratorOp := { op with depth := op.depth - 1 }

def reset : ConsStringIteratorOp := { op with depth := 0 }

def hasMore : Bool := op.depth ≠ 0

/-- `consumed_ = offset` -/
def setConsumed (offset : Nat) : ConsStringIteratorOp := { op with consumed := offset }

end

/-! ## `Search` -/

/-- Which part of a node has been gone to. -/
inductive Branch where
  | left
  | right

/-- `PushLeft` and `PushRight` -/
def push (op : ConsStringIteratorOp) : Branch → ConsString → ConsStringIteratorOp
  | .left, string => op.pushLeft string
  | .right, string => op.pushRight string

/-- What is found: a leaf and where it begins. -/
abbrev Found := Option (Str × Nat)

/-- The loop of `Search`, from where it has gone to the string, which is the part of a
node and begins at `offset`. -/
def searchFrom (consumed : Nat) : Str → Branch → Nat → ConsStringIteratorOp →
    Found × ConsStringIteratorOp
  | .cons oneByte first second, branch, offset, op =>
      let op := op.push branch ⟨oneByte, first, second⟩
      if consumed < offset + first.length then searchFrom consumed first .left offset op
      else searchFrom consumed second .right (offset + first.length) op
  | string, .left, offset, op =>
      (some (string, offset), op.adjustMaximumDepth.setConsumed (offset + string.length))
  | string, .right, offset, op =>
      if string.length = 0 then (none, op.reset)
      else (some (string, offset), op.adjustMaximumDepth.pop.setConsumed (offset + string.length))

/-- `Search`: the root is the first frame. -/
def search (op : ConsStringIteratorOp) (root : ConsString) : Found × ConsStringIteratorOp :=
  searchFrom op.consumed root.toStr .left 0
    { op with depth := 0, maximumDepth := 1 }

/-- `Operate`: a leaf, and the offset in it at which `offset` lies. -/
def operate (op : ConsStringIteratorOp) (string : ConsString) (offset : Nat) :
    Found × ConsStringIteratorOp :=
  let (found, op) := { op with root := some string, consumed := offset }.search string
  (found.map fun (leaf, start) => (leaf, offset - start), op)

/-! ## `NextLeaf` -/

/-- How `NextLeaf` ends. -/
inductive NextLeaf where
  | leaf (string : Str) (op : ConsStringIteratorOp)
  | complete (op : ConsStringIteratorOp)
  | blewStack (op : ConsStringIteratorOp)
  /-- A frame was read that no string was put in. -/
  | crash

/-- All the way left. -/
def leftmost : Str → ConsStringIteratorOp → Str × ConsStringIteratorOp
  | .cons oneByte first second, op => leftmost first (op.pushLeft ⟨oneByte, first, second⟩)
  | string, op => (string, op.adjustMaximumDepth.setConsumed (op.consumed + string.length))

/-- The loop of `NextLeaf` at a depth; a frame whose second part is empty is passed. -/
def nextLeafAt : Nat → ConsStringIteratorOp → NextLeaf
  | 0, op => .complete op
  | depth + 1, op =>
      if op.maximumDepth - op.depth = kStackSize then .blewStack op
      else match op.frames (offsetForDepth depth) with
        | none => .crash
        | some frame =>
            match frame.second with
            | .cons oneByte first second =>
                let (string, op) := leftmost first (op.pushRight ⟨oneByte, first, second⟩)
                .leaf string op
            | string =>
                if string.length = 0 then nextLeafAt depth op.pop
                else .leaf string (op.pop.setConsumed (op.consumed + string.length))

def nextLeaf (op : ConsStringIteratorOp) : NextLeaf := nextLeafAt op.depth op

/-- `ContinueOperation`: the next leaf, or none at the end; no result where memory is read
that was not written. -/
def continueOperation (op : ConsStringIteratorOp) : Option (Option Str × ConsStringIteratorOp) :=
  match op.nextLeaf with
  | .leaf string op => some (some string, op)
  | .complete op => some (none, op)
  | .blewStack op =>
      op.root.map fun root =>
        let (found, op) := op.search root
        (found.map Prod.fst, op)
  | .crash => none

/-! ## The members after each operation -/

section
variable (op : ConsStringIteratorOp)

theorem offsetForDepth_eq (depth : Nat) : offsetForDepth depth = depth % kStackSize :=
  Nat.and_two_pow_sub_one_eq_mod depth 5

theorem setFrame_frames (level : Nat) (string : ConsString) :
    (op.setFrame (offsetForDepth level) string).frames =
      Ring.store kStackSize level string op.frames := by
  rw [offsetForDepth_eq]
  rfl

theorem adjustMaximumDepth_eq :
    op.adjustMaximumDepth = { op with maximumDepth := max op.maximumDepth op.depth } := by
  unfold adjustMaximumDepth
  split_ifs with h
  · rw [Nat.max_eq_right (Nat.le_of_lt h)]
  · rw [Nat.max_eq_left (Nat.not_lt.mp h)]

end

end ConsStringIteratorOp

/-! ## Leaves -/

namespace Str

/-- Induction over the cons nodes of a string. -/
@[elab_as_elim]
theorem node_induction {motive : Str → Prop} (leaf : ∀ s, s.IsLeaf → motive s)
    (node : ∀ oneByte first second, motive first → motive second →
      motive (cons oneByte first second)) (s : Str) : motive s := by
  induction s with
  | cons oneByte first second ih₁ ih₂ => exact node oneByte first second ih₁ ih₂
  | _ => exact leaf _ trivial

/-- The leaves from left to right. -/
def leaves : Str → List Str
  | cons _ first second => first.leaves ++ second.leaves
  | s => [s]

def lengths (strings : List Str) : Nat := (strings.map length).sum

/-- The text of strings that follow each other. -/
def text (strings : List Str) : List UInt16 := strings.flatMap units

theorem lengths_append (xs ys : List Str) : lengths (xs ++ ys) = lengths xs + lengths ys := by
  simp [lengths]

theorem lengths_cons (x : Str) (xs : List Str) : lengths (x :: xs) = x.length + lengths xs := by
  simp [lengths]

theorem text_append (xs ys : List Str) : text (xs ++ ys) = text xs ++ text ys := by
  simp [text]

theorem leaves_of_isLeaf {s : Str} (h : s.IsLeaf) : s.leaves = [s] := by
  cases s with
  | cons _ _ _ => exact absurd h id
  | _ => rfl

theorem lengths_leaves (s : Str) : lengths s.leaves = s.length := by
  induction s using node_induction with
  | node oneByte first second ih₁ ih₂ =>
      unfold leaves
      rw [lengths_append, ih₁, ih₂]
      rfl
  | leaf s hleaf => simp [leaves_of_isLeaf hleaf, lengths]

theorem text_leaves (s : Str) : text s.leaves = s.units := by
  induction s using node_induction with
  | node oneByte first second ih₁ ih₂ =>
      unfold leaves
      rw [text_append, ih₁, ih₂]
      rfl
  | leaf s hleaf => simp [leaves_of_isLeaf hleaf, text]

/-- The parts of a string of the heap are strings of the heap. -/
theorem leaf_of_mem_leaves {s leaf : Str} (h : s.WellFormed) (hmem : leaf ∈ s.leaves) :
    leaf.WellFormed ∧ leaf.IsLeaf := by
  induction s using node_induction with
  | node oneByte first second ih₁ ih₂ =>
      rcases List.mem_append.mp hmem with hfirst | hsecond
      · exact ih₁ h.1 hfirst
      · exact ih₂ h.2.1 hsecond
  | leaf s hleaf =>
      rw [leaves_of_isLeaf hleaf] at hmem
      obtain rfl := List.mem_singleton.mp hmem
      exact ⟨h, hleaf⟩

end Str

namespace ConsStringIteratorOp

open Str

/-- The leaves to the right of the nodes, the deepest node first. -/
def pending (stack : List ConsString) : List Str := stack.flatMap fun node => node.second.leaves

theorem pending_cons (node : ConsString) (stack : List ConsString) :
    pending (node :: stack) = node.second.leaves ++ pending stack := List.flatMap_cons

/-- There is more to the right of each of the nodes. -/
def Unfinished (stack : List ConsString) : Prop := ∀ node ∈ stack, 0 < node.second.length

/-- The frames are nodes whose right part is still to be visited.  Those that have been
written over are found missing in time: the depth never comes below that of the first of
them.  Only the deepest may have an empty right part. -/
structure Stands (op : ConsStringIteratorOp) (stack : List ConsString) : Prop where
  depth : op.depth = stack.length
  deepest : op.depth ≤ op.maximumDepth
  near : op.maximumDepth ≤ op.depth + kStackSize
  held : Ring.Holds kStackSize op.maximumDepth op.frames stack
  parts : ∀ node ∈ stack, node.second.WellFormed
  above : Unfinished stack.tail
  unfinished : Unfinished stack ∨ op.maximumDepth < op.depth + kStackSize

/-! ## Going down -/

/-- The number of frames at the node above. -/
def Branch.levels : Branch → Nat
  | .left => 0
  | .right => 1

/-- On the way down, at the string, which is a part of a node.  To the left of that node
the frames are those above and the node's; to the right of it the node's is used again. -/
structure Descends (op : ConsStringIteratorOp) (s : Str) (branch : Branch)
    (stack : List ConsString) : Prop where
  depth : op.depth = stack.length + branch.levels
  near : op.maximumDepth < op.depth + kStackSize
  held : Ring.Holds kStackSize (max op.maximumDepth op.depth) op.frames stack
  parts : ∀ node ∈ stack, node.second.WellFormed
  above : Unfinished stack.tail
  unfinished : branch = .right ∨ ¬ s.IsLeaf → Unfinished stack

section
variable {op : ConsStringIteratorOp} {branch : Branch} {stack : List ConsString}

theorem push_eq (hdepth : op.depth = stack.length + branch.levels) (node : ConsString) :
    op.push branch node = { op with
      depth := stack.length + 1
      frames := Ring.store kStackSize stack.length node op.frames } := by
  cases branch with
  | left =>
      have hlevel : op.depth = stack.length := hdepth
      show { op.setFrame (offsetForDepth op.depth) node with depth := op.depth + 1 } = _
      rw [← setFrame_frames, hlevel]
      rfl
  | right =>
      have hlevel : op.depth = stack.length + 1 := hdepth
      show op.setFrame (offsetForDepth (op.depth - 1)) node = _
      rw [← setFrame_frames, hlevel, Nat.add_sub_cancel, ← hlevel]
      rfl

/-- A node is a frame once its part is gone to. -/
theorem Descends.push {oneByte : Bool} {first second : Str}
    (h : Descends op (.cons oneByte first second) branch stack)
    (hwf : (Str.cons oneByte first second).WellFormed) :
    Descends (op.push branch ⟨oneByte, first, second⟩) first .left
        (⟨oneByte, first, second⟩ :: stack) ∧
      Descends (op.push branch ⟨oneByte, first, second⟩) second .right stack := by
  have hstack : Unfinished stack := h.unfinished (.inr id)
  have hdepth := h.depth
  have hnear := h.near
  rw [push_eq hdepth]
  have hlevels : branch.levels ≤ 1 := by cases branch <;> decide
  have hhigh : max op.maximumDepth op.depth ≤ max op.maximumDepth (stack.length + 1) := by omega
  have hlevel : stack.length < max op.maximumDepth (stack.length + 1) := by omega
  have hheld := h.held.push (⟨oneByte, first, second⟩ : ConsString) hhigh hlevel
  constructor
  · refine ⟨rfl, ?_, hheld, List.forall_mem_cons.mpr ⟨hwf.2.1, h.parts⟩, hstack, ?_⟩
    · show op.maximumDepth < stack.length + 1 + kStackSize
      omega
    · rintro (hbranch | hnode) node hmem
      · cases hbranch
      · rcases List.mem_cons.mp hmem with rfl | hmem
        · rcases hwf.2.2.secondPart with hpos | ⟨-, hleaf⟩
          · exact hpos
          · exact absurd hleaf hnode
        · exact hstack node hmem
  · refine ⟨rfl, ?_, hheld.tail, h.parts, fun node hmem => ?_, fun _ => hstack⟩
    · show op.maximumDepth < stack.length + 1 + kStackSize
      omega
    · exact hstack node (List.mem_of_mem_tail hmem)

/-- At a leaf: the frame of the node is given up if the leaf is its right part. -/
def arrive (op : ConsStringIteratorOp) : Branch → ConsStringIteratorOp
  | .left => op.adjustMaximumDepth
  | .right => op.adjustMaximumDepth.pop

theorem Descends.arrive {s : Str} (h : Descends op s branch stack) (consumed : Nat) :
    Stands ((op.arrive branch).setConsumed consumed) stack := by
  have hnear := h.near
  have hsize : 0 < kStackSize := by decide
  cases branch with
  | left =>
      have hdepth : op.depth = stack.length := h.depth
      show Stands (op.adjustMaximumDepth.setConsumed consumed) stack
      rw [adjustMaximumDepth_eq]
      refine ⟨hdepth, Nat.le_max_right _ _, ?_, h.held, h.parts, h.above, .inr ?_⟩
      · show max op.maximumDepth op.depth ≤ op.depth + kStackSize
        omega
      · show max op.maximumDepth op.depth < op.depth + kStackSize
        omega
  | right =>
      have hdepth : op.depth = stack.length + 1 := h.depth
      show Stands (op.adjustMaximumDepth.pop.setConsumed consumed) stack
      rw [adjustMaximumDepth_eq]
      refine ⟨?_, ?_, ?_, h.held, h.parts, h.above, .inl (h.unfinished (.inl rfl))⟩
      · show op.depth - 1 = stack.length
        omega
      · show op.depth - 1 ≤ max op.maximumDepth op.depth
        omega
      · show max op.maximumDepth op.depth ≤ op.depth - 1 + kStackSize
        omega

theorem arrive_root : (op.arrive branch).root = op.root := by
  cases branch with
  | left =>
      show op.adjustMaximumDepth.root = op.root
      rw [adjustMaximumDepth_eq]
  | right =>
      show op.adjustMaximumDepth.root = op.root
      rw [adjustMaximumDepth_eq]

end

/-! ## What is found -/

section
variable {stack : List ConsString}

theorem searchFrom_leaf {s : Str} (hleaf : s.IsLeaf) (hpos : 0 < s.length) (consumed : Nat)
    (branch : Branch) (offset : Nat) (op : ConsStringIteratorOp) :
    searchFrom consumed s branch offset op =
      (some (s, offset), (op.arrive branch).setConsumed (offset + s.length)) := by
  have hne : ¬ s.length = 0 := Nat.ne_of_gt hpos
  cases s with
  | cons _ _ _ => exact absurd hleaf id
  | _ =>
      cases branch with
      | left => rfl
      | right =>
          unfold searchFrom
          rw [if_neg hne]
          rfl

theorem searchFrom_empty {s : Str} (hleaf : s.IsLeaf) (hempty : s.length = 0) (consumed : Nat)
    (offset : Nat) (op : ConsStringIteratorOp) :
    searchFrom consumed s .right offset op = (none, op.reset) := by
  cases s with
  | cons _ _ _ => exact absurd hleaf id
  | _ =>
      unfold searchFrom
      exact if_pos hempty

/-- The way down from a string to the leaf in which the character at `consumed` is. -/
theorem searchFrom_eq {consumed : Nat} {s : Str} (hwf : s.WellFormed) {branch : Branch}
    {offset : Nat} {op : ConsStringIteratorOp} {stack : List ConsString}
    (h : Descends op s branch stack) (hle : offset ≤ consumed)
    (hlt : consumed < offset + s.length) :
    ∃ before leaf stack' op', searchFrom consumed s branch offset op =
        (some (leaf, offset + lengths before), op') ∧
      s.leaves ++ pending stack = before ++ leaf :: pending stack' ∧
      offset + lengths before ≤ consumed ∧ consumed < offset + lengths before + leaf.length ∧
      leaf.WellFormed ∧ leaf.IsLeaf ∧ Stands op' stack' ∧
      op'.consumed = offset + lengths before + leaf.length ∧ op'.root = op.root := by
  induction s using node_induction generalizing branch offset op stack with
  | node oneByte first second ih₁ ih₂ =>
      obtain ⟨hleft, hright⟩ := h.push hwf
      have hroot : (op.push branch ⟨oneByte, first, second⟩).root = op.root := by
        rw [push_eq h.depth]
      unfold searchFrom
      dsimp only
      by_cases hfirst : consumed < offset + first.length
      · rw [if_pos hfirst]
        obtain ⟨before, leaf, stack', op', heq, hleaves, hrest⟩ := ih₁ hwf.1 hleft hle hfirst
        rw [pending_cons, ← List.append_assoc] at hleaves
        rw [hroot] at hrest
        exact ⟨before, leaf, stack', op', heq, hleaves, hrest⟩
      · rw [if_neg hfirst]
        have hlt' : consumed < offset + first.length + second.length := by
          rw [Nat.add_assoc]
          exact hlt
        obtain ⟨before, leaf, stack', op', heq, hleaves, hrest⟩ :=
          ih₂ hwf.2.1 hright (Nat.not_lt.mp hfirst) hlt'
        have hlengths : offset + first.length + lengths before =
            offset + lengths (first.leaves ++ before) := by
          rw [lengths_append, lengths_leaves, Nat.add_assoc]
        rw [hroot, hlengths] at hrest
        rw [hlengths] at heq
        refine ⟨first.leaves ++ before, leaf, stack', op', heq, ?_, hrest⟩
        show first.leaves ++ second.leaves ++ pending stack = _
        rw [List.append_assoc, hleaves, List.append_assoc]
  | leaf s hleaf =>
      rw [leaves_of_isLeaf hleaf]
      exact ⟨[], s, stack, _, searchFrom_leaf hleaf (by omega) consumed branch offset op, rfl,
        hle, hlt, hwf, hleaf, h.arrive _, rfl, arrive_root⟩

/-- After the last character, there is nothing more. -/
theorem searchFrom_end {consumed : Nat} {s : Str} (hwf : s.WellFormed) (branch : Branch)
    {offset : Nat} (op : ConsStringIteratorOp) (hdepth : op.depth = branch.levels)
    (hend : consumed = offset + s.length) (hbranch : branch = .right ∨ ¬ s.IsLeaf) :
    (searchFrom consumed s branch offset op).2.depth = 0 ∧
      ∀ found ∈ (searchFrom consumed s branch offset op).1,
        found.1.WellFormed ∧ found.1.IsLeaf ∧ consumed = found.2 + found.1.length := by
  induction s using node_induction generalizing branch offset op with
  | node oneByte first second ih₁ ih₂ =>
      have hsecond : ¬ consumed < offset + first.length := by
        rw [hend]
        show ¬ offset + (first.length + second.length) < offset + first.length
        omega
      have hdepth' : (op.push branch ⟨oneByte, first, second⟩).depth = Branch.right.levels := by
        have hroot : op.depth = ([] : List ConsString).length + branch.levels := by
          rw [hdepth, List.length_nil, Nat.zero_add]
        rw [push_eq hroot]
        rfl
      unfold searchFrom
      dsimp only
      rw [if_neg hsecond]
      refine ih₂ hwf.2.1 .right _ hdepth' ?_ (.inl rfl)
      rw [hend, Nat.add_assoc]
      rfl
  | leaf s hleaf =>
      obtain rfl := hbranch.resolve_right (not_not_intro hleaf)
      by_cases hempty : s.length = 0
      · rw [searchFrom_empty hleaf hempty]
        exact ⟨rfl, nofun⟩
      · rw [searchFrom_leaf hleaf (Nat.pos_of_ne_zero hempty), ConsStringIteratorOp.arrive,
          adjustMaximumDepth_eq]
        refine ⟨?_, ?_⟩
        · show op.depth - 1 = 0
          rw [hdepth]
          rfl
        · rintro found hfound
          cases hfound
          exact ⟨hwf, hleaf, hend⟩

/-- The way down to the first leaf of a string that is not empty. -/
theorem leftmost_eq {s : Str} (hwf : s.WellFormed) (hpos : 0 < s.length)
    {op : ConsStringIteratorOp} {stack : List ConsString} (h : Descends op s .left stack) :
    ∃ leaf stack' op', leftmost s op = (leaf, op') ∧
      s.leaves ++ pending stack = leaf :: pending stack' ∧ leaf.WellFormed ∧ leaf.IsLeaf ∧
      0 < leaf.length ∧ Stands op' stack' ∧ op'.consumed = op.consumed + leaf.length ∧
      op'.root = op.root := by
  induction s using node_induction generalizing op stack with
  | node oneByte first second ih₁ ih₂ =>
      obtain ⟨hleft, -⟩ := h.push hwf
      obtain ⟨leaf, stack', op', heq, hleaves, hrest⟩ := ih₁ hwf.1 hwf.2.2.firstLength hleft
      have hroot : (op.push .left ⟨oneByte, first, second⟩).root = op.root := rfl
      have hconsumed : (op.push .left ⟨oneByte, first, second⟩).consumed = op.consumed := rfl
      rw [pending_cons, ← List.append_assoc] at hleaves
      rw [hroot, hconsumed] at hrest
      exact ⟨leaf, stack', op', heq, hleaves, hrest⟩
  | leaf s hleaf =>
      have heq : leftmost s op =
          (s, (op.arrive .left).setConsumed (op.consumed + s.length)) := by
        cases s with
        | cons _ _ _ => exact absurd hleaf id
        | _ => rfl
      rw [leaves_of_isLeaf hleaf]
      exact ⟨s, stack, _, heq, rfl, hwf, hleaf, hpos, h.arrive _, rfl, arrive_root⟩

/-- The state between two calls: the leaves before those of the frames have been given, and
have as many characters as have been consumed. -/
structure Between (op : ConsStringIteratorOp) (stack : List ConsString) (root : ConsString) :
    Prop where
  stands : Stands op stack
  started : op.root = some root
  wellFormed : root.toStr.WellFormed
  visited : ∃ before, root.toStr.leaves = before ++ pending stack ∧ lengths before = op.consumed

variable {op : ConsStringIteratorOp} {root node : ConsString} {stack : List ConsString}

/-- The deepest frame can be read unless the ring has gone round. -/
theorem Between.top (h : Between op (node :: stack) root)
    (hnear : ¬ op.maximumDepth - op.depth = kStackSize) :
    op.frames (offsetForDepth stack.length) = some node := by
  have hdepth : op.depth = stack.length + 1 := h.stands.depth
  have hle := h.stands.near
  rw [offsetForDepth_eq]
  exact h.stands.held.top (by omega)

/-- From the deepest frame it goes to the right. -/
theorem Between.descends (h : Between op (node :: stack) root)
    (hnear : ¬ op.maximumDepth - op.depth = kStackSize) :
    Descends op node.second .right stack := by
  have hdepth : op.depth = stack.length + 1 := h.stands.depth
  have hdeepest := h.stands.deepest
  have hle := h.stands.near
  refine ⟨hdepth, by omega, ?_, (List.forall_mem_cons.mp h.stands.parts).2, ?_,
    fun _ => h.stands.above⟩
  · rw [Nat.max_eq_left hdeepest]
    exact h.stands.held.tail
  · intro other hmem
    exact h.stands.above other (List.mem_of_mem_tail hmem)

/-- A right part that is a leaf is visited, and its frame given up. -/
theorem Between.pop (h : Between op (node :: stack) root) (hleaf : node.second.IsLeaf)
    (hnear : ¬ op.maximumDepth - op.depth = kStackSize) :
    Between (op.pop.setConsumed (op.consumed + node.second.length)) stack root := by
  have hdepth : op.depth = stack.length + 1 := h.stands.depth
  have hdeepest := h.stands.deepest
  have hle := h.stands.near
  obtain ⟨before, hleaves, hconsumed⟩ := h.visited
  refine ⟨⟨?_, ?_, ?_, h.stands.held.tail, (List.forall_mem_cons.mp h.stands.parts).2, ?_,
    .inl h.stands.above⟩, h.started, h.wellFormed, before ++ [node.second], ?_, ?_⟩
  · show op.depth - 1 = stack.length
    omega
  · show op.depth - 1 ≤ op.maximumDepth
    omega
  · show op.maximumDepth ≤ op.depth - 1 + kStackSize
    omega
  · intro other hmem
    exact h.stands.above other (List.mem_of_mem_tail hmem)
  · rw [hleaves, pending_cons, leaves_of_isLeaf hleaf, List.append_assoc]
  · rw [lengths_append, hconsumed]
    rfl

/-- What `NextLeaf` may find. -/
def Finds (root : ConsString) (stack : List ConsString) : NextLeaf → Prop
  | .leaf leaf op => ∃ stack', Between op stack' root ∧ leaf.WellFormed ∧ leaf.IsLeaf ∧
      0 < leaf.length ∧ text (pending stack) = leaf.units ++ text (pending stack')
  | .complete op => op.depth = 0 ∧ text (pending stack) = []
  | .blewStack op => ∃ stack', Between op stack' root ∧ 0 < lengths (pending stack') ∧
      text (pending stack) = text (pending stack')
  | .crash => False

section
variable {depth : Nat} (hframe : op.frames (offsetForDepth depth) = some node)
  (hnear : ¬ op.maximumDepth - op.depth = kStackSize)
include hframe hnear

theorem nextLeafAt_leaf (hleaf : node.second.IsLeaf) : nextLeafAt (depth + 1) op =
    if node.second.length = 0 then nextLeafAt depth op.pop
    else .leaf node.second (op.pop.setConsumed (op.consumed + node.second.length)) := by
  rw [nextLeafAt, if_neg hnear, hframe]
  obtain ⟨b, first, second⟩ := node
  cases second with
  | cons _ _ _ => exact absurd hleaf id
  | _ => rfl

theorem nextLeafAt_cons {oneByte : Bool} {first second : Str}
    (hcons : node.second = .cons oneByte first second) : nextLeafAt (depth + 1) op =
    .leaf (leftmost first (op.pushRight ⟨oneByte, first, second⟩)).1
      (leftmost first (op.pushRight ⟨oneByte, first, second⟩)).2 := by
  rw [nextLeafAt, if_neg hnear, hframe]
  dsimp only
  rw [hcons]

end

theorem Finds.of_text {stack' : List ConsString} {found : NextLeaf} (h : Finds root stack found)
    (htext : text (pending stack') = text (pending stack)) : Finds root stack' found := by
  cases found with
  | leaf leaf op =>
      obtain ⟨rest, hbetween, hwf, hleaf, hpos, hunits⟩ := h
      exact ⟨rest, hbetween, hwf, hleaf, hpos, htext.trans hunits⟩
  | complete op => exact ⟨h.1, htext.trans h.2⟩
  | blewStack op =>
      obtain ⟨rest, hbetween, hpos, hunits⟩ := h
      exact ⟨rest, hbetween, hpos, htext.trans hunits⟩
  | crash => exact h

/-- The right part of the deepest frame, if it is a leaf. -/
theorem Between.finds_leaf (h : Between op (node :: stack) root) (hleaf : node.second.IsLeaf)
    (hnear : ¬ op.maximumDepth - op.depth = kStackSize) (hwf : node.second.WellFormed)
    (hrest : ∀ {op : ConsStringIteratorOp}, Between op stack root →
      Finds root stack (nextLeafAt stack.length op)) :
    Finds root (node :: stack) (if node.second.length = 0 then nextLeafAt stack.length op.pop
      else .leaf node.second (op.pop.setConsumed (op.consumed + node.second.length))) := by
  have hpop := h.pop hleaf hnear
  have htext : text (pending (node :: stack)) = node.second.units ++ text (pending stack) := by
    rw [pending_cons, text_append, text_leaves]
  by_cases hempty : node.second.length = 0
  · rw [if_pos hempty]
    rw [hempty] at hpop
    have hunits : node.second.units = [] :=
      List.eq_nil_of_length_eq_zero ((length_units hwf).trans hempty)
    rw [hunits, List.nil_append] at htext
    exact (hrest hpop).of_text htext
  · rw [if_neg hempty]
    exact ⟨stack, hpop, hwf, hleaf, Nat.pos_of_ne_zero hempty, htext⟩

/-- The first leaf of the right part of the deepest frame. -/
theorem Between.finds_leftmost (h : Between op (node :: stack) root) {oneByte : Bool}
    {first second : Str} (hsecond : node.second = .cons oneByte first second)
    (hwf : (Str.cons oneByte first second).WellFormed)
    (hdescends : Descends op (.cons oneByte first second) .right stack) :
    Finds root (node :: stack)
      (.leaf (leftmost first (op.pushRight ⟨oneByte, first, second⟩)).1
        (leftmost first (op.pushRight ⟨oneByte, first, second⟩)).2) := by
  obtain ⟨leaf, stack', op', heq, hleaves, hleaf, hisLeaf, hpos, hstands, hconsumed, hroot⟩ :=
    leftmost_eq hwf.1 hwf.2.2.firstLength (hdescends.push hwf).1
  have hpending : pending (node :: stack) = leaf :: pending stack' := by
    rw [pending_cons, hsecond, ← hleaves, pending_cons, ← List.append_assoc]
    rfl
  obtain ⟨before, hvisited, hlengths⟩ := h.visited
  rw [hpending] at hvisited
  have hop : (op.push .right ⟨oneByte, first, second⟩).consumed = op.consumed ∧
      (op.push .right ⟨oneByte, first, second⟩).root = op.root := ⟨rfl, rfl⟩
  rw [hop.1] at hconsumed
  rw [hop.2] at hroot
  have heq' : leftmost first (op.pushRight ⟨oneByte, first, second⟩) = (leaf, op') := heq
  rw [heq']
  refine ⟨stack', ⟨hstands, hroot.trans h.started, h.wellFormed, before ++ [leaf], ?_, ?_⟩,
    hleaf, hisLeaf, hpos, ?_⟩
  · rw [hvisited, List.append_assoc]
    rfl
  · rw [lengths_append, hlengths, hconsumed]
    rfl
  · rw [hpending]
    rfl

theorem nextLeafAt_finds (h : Between op stack root) :
    Finds root stack (nextLeafAt stack.length op) := by
  induction stack generalizing op with
  | nil => exact ⟨h.stands.depth, rfl⟩
  | cons node stack ih =>
      have hdepth : op.depth = stack.length + 1 := h.stands.depth
      by_cases hblown : op.maximumDepth - op.depth = kStackSize
      · rw [List.length_cons, nextLeafAt, if_pos hblown]
        refine ⟨node :: stack, h, ?_, rfl⟩
        have hunfinished : Unfinished (node :: stack) := by
          refine h.stands.unfinished.resolve_right ?_
          have hdeepest := h.stands.deepest
          omega
        have hpos := hunfinished node List.mem_cons_self
        rw [pending_cons, lengths_append, lengths_leaves]
        omega
      · have hwf : node.second.WellFormed := h.stands.parts node List.mem_cons_self
        have hframe := h.top hblown
        rw [List.length_cons]
        cases hsecond : node.second with
        | cons oneByte first second =>
            rw [nextLeafAt_cons hframe hblown hsecond]
            have hdescends := h.descends hblown
            rw [hsecond] at hdescends hwf
            exact h.finds_leftmost hsecond hwf hdescends
        | _ =>
            have hleaf : node.second.IsLeaf := by
              rw [hsecond]
              trivial
            rw [nextLeafAt_leaf hframe hblown hleaf]
            exact h.finds_leaf hleaf hblown hwf ih

/-! ## The operations -/

theorem text_of_lengths_eq_zero {strings : List Str} (hwf : ∀ s ∈ strings, s.WellFormed)
    (hzero : lengths strings = 0) : text strings = [] := by
  induction strings with
  | nil => rfl
  | cons s strings ih =>
      rw [lengths_cons] at hzero
      obtain ⟨hs, hstrings⟩ := List.forall_mem_cons.mp hwf
      have hunits : s.units = [] :=
        List.eq_nil_of_length_eq_zero ((length_units hs).trans (by omega))
      show s.units ++ text strings = []
      rw [hunits, ih hstrings (by omega)]
      rfl

theorem length_text {strings : List Str} (hwf : ∀ s ∈ strings, s.WellFormed) :
    (text strings).length = lengths strings := by
  induction strings with
  | nil => rfl
  | cons s strings ih =>
      obtain ⟨hs, hstrings⟩ := List.forall_mem_cons.mp hwf
      rw [lengths_cons, ← length_units hs, ← ih hstrings]
      exact List.length_append

/-- The leaf in which a character is that begins a leaf. -/
theorem text_of_restart {before before' rest rest' : List Str} {leaf : Str}
    (hwf : ∀ s ∈ before ++ rest, s.WellFormed) (heq : before ++ rest = before' ++ leaf :: rest')
    (hle : lengths before' ≤ lengths before)
    (hlt : lengths before < lengths before' + leaf.length) :
    text rest = leaf.units ++ text rest' := by
  rcases List.append_eq_append_iff.mp heq with ⟨between, rfl, rfl⟩ | ⟨between, rfl, hrest⟩
  · rw [lengths_append] at hle
    have hempty : text between = [] := by
      refine text_of_lengths_eq_zero (fun s hs => hwf s ?_) (by omega)
      exact List.mem_append_right _ (List.mem_append_left _ hs)
    rw [text_append, hempty]
    rfl
  · cases between with
    | nil =>
        obtain rfl : leaf :: rest' = rest := hrest
        rfl
    | cons first between =>
        obtain ⟨rfl, -⟩ := List.cons.inj hrest
        rw [lengths_append, lengths_cons] at hlt
        omega

/-- The characters that the iterator has still to give. -/
inductive Rests : ConsStringIteratorOp → List UInt16 → Prop where
  | done {op : ConsStringIteratorOp} : op.depth = 0 → Rests op []
  | between {op : ConsStringIteratorOp} {stack : List ConsString} {root : ConsString} :
      Between op stack root → Rests op (text (pending stack))

theorem rests_reset (op : ConsStringIteratorOp) : Rests op.reset [] := .done rfl

theorem Rests.eq_nil {op : ConsStringIteratorOp} {units : List UInt16} (h : Rests op units)
    (hdepth : op.depth = 0) : units = [] := by
  cases h with
  | done _ => rfl
  | @between stack _ hbetween =>
      have hstack : stack = [] :=
        List.eq_nil_of_length_eq_zero (hbetween.stands.depth.symm.trans hdepth)
      rw [hstack]
      rfl

/-- The frames that a search from the root leaves. -/
theorem search_eq (op : ConsStringIteratorOp) {root : ConsString}
    (hroot : op.root = some root) (hwf : root.toStr.WellFormed)
    (hlt : op.consumed < root.toStr.length) :
    ∃ before leaf stack' op', op.search root = (some (leaf, lengths before), op') ∧
      root.toStr.leaves = before ++ leaf :: pending stack' ∧ lengths before ≤ op.consumed ∧
      op.consumed < lengths before + leaf.length ∧ leaf.WellFormed ∧ leaf.IsLeaf ∧
      Between op' stack' root := by
  have hstart : Descends { op with depth := 0, maximumDepth := 1 } root.toStr .left [] := by
    refine ⟨rfl, ?_, trivial, nofun, nofun, fun _ => nofun⟩
    show 1 < 0 + kStackSize
    decide
  have hlt₀ : op.consumed < 0 + root.toStr.length := by rwa [Nat.zero_add]
  obtain ⟨before, leaf, stack', op', heq, hleaves, hle, hlt', hleaf, hisLeaf, hstands, hconsumed,
    hroot'⟩ := searchFrom_eq hwf hstart (Nat.zero_le _) hlt₀
  rw [Nat.zero_add] at heq hle hlt' hconsumed
  have hvisited : root.toStr.leaves = before ++ leaf :: pending stack' := by
    rw [← hleaves]
    exact (List.append_nil _).symm
  refine ⟨before, leaf, stack', op', heq, hvisited, hle, hlt', hleaf, hisLeaf,
    hstands, hroot'.trans hroot, hwf, before ++ [leaf], ?_, ?_⟩
  · rw [hvisited, List.append_assoc]
    rfl
  · rw [lengths_append, hconsumed]
    rfl

/-- `ContinueOperation` gives the next leaf that is not empty, or the end. -/
theorem continueOperation_eq {op : ConsStringIteratorOp} {units : List UInt16}
    (h : Rests op units) :
    (∃ leaf op' rest, op.continueOperation = some (some leaf, op') ∧ leaf.WellFormed ∧
      leaf.IsLeaf ∧ 0 < leaf.length ∧ units = leaf.units ++ rest ∧ Rests op' rest) ∨
    (∃ op', op.continueOperation = some (none, op') ∧ units = [] ∧ Rests op' []) := by
  cases h with
  | done hdepth =>
      refine .inr ⟨op, ?_, rfl, .done hdepth⟩
      rw [continueOperation, nextLeaf, hdepth]
      rfl
  | between hbetween =>
      have hfinds := nextLeafAt_finds hbetween
      rw [← hbetween.stands.depth] at hfinds
      unfold continueOperation nextLeaf
      cases hnext : nextLeafAt op.depth op with
      | leaf leaf op' =>
          rw [hnext] at hfinds
          obtain ⟨stack', hbetween', hwf, hleaf, hpos, htext⟩ := hfinds
          exact .inl ⟨leaf, op', _, rfl, hwf, hleaf, hpos, htext, .between hbetween'⟩
      | complete op' =>
          rw [hnext] at hfinds
          exact .inr ⟨op', rfl, hfinds.2, .done hfinds.1⟩
      | blewStack op' =>
          rw [hnext] at hfinds
          obtain ⟨stack', hbetween', hpos, htext⟩ := hfinds
          obtain ⟨visited, hvisited, hconsumed⟩ := hbetween'.visited
          have hlength := congrArg lengths hvisited
          rw [lengths_leaves, lengths_append, hconsumed] at hlength
          obtain ⟨before, leaf, stack'', op'', heq, hleaves, hle, hlt, hwf, hleaf, hbetween''⟩ :=
            search_eq op' hbetween'.started hbetween'.wellFormed (by omega)
          rw [← hconsumed] at hle hlt
          refine .inl ⟨leaf, op'', _, ?_, hwf, hleaf, by omega, ?_, .between hbetween''⟩
          · dsimp only
            rw [hbetween'.started, Option.map_some, heq]
            rfl
          · rw [htext]
            refine text_of_restart ?_ (hvisited.symm.trans hleaves) hle hlt
            rw [← hvisited]
            exact fun s hs => (leaf_of_mem_leaves hbetween'.wellFormed hs).1
      | crash =>
          rw [hnext] at hfinds
          exact absurd hfinds id

/-- `Operate` gives the leaf at the offset and where in it the offset is; after the last
character it gives no character and ends. -/
theorem operate_eq (op : ConsStringIteratorOp) (root : ConsString)
    (hwf : root.toStr.WellFormed) {offset : Nat} (hle : offset ≤ root.toStr.length) :
    (∃ leaf start op' rest, op.operate root offset = (some (leaf, start), op') ∧
      leaf.WellFormed ∧ leaf.IsLeaf ∧ start ≤ offset ∧
      (offset < root.toStr.length → start < leaf.length) ∧
      root.toStr.units.drop offset = leaf.units.drop start ++ rest ∧ Rests op' rest) ∨
    (∃ op', op.operate root offset = (none, op') ∧ offset = root.toStr.length ∧
      Rests op' []) := by
  rcases Nat.lt_or_ge offset root.toStr.length with hlt | hge
  · obtain ⟨before, leaf, stack', op', heq, hleaves, hle', hlt', hleaf, hisLeaf, hbetween⟩ :=
      search_eq { op with root := some root, consumed := offset } rfl hwf hlt
    have hbefore : ∀ s ∈ before, s.WellFormed := fun s hs =>
      (leaf_of_mem_leaves hwf (hleaves ▸ List.mem_append_left _ hs)).1
    have hoffset : lengths before ≤ offset := hle'
    have hstart : offset < lengths before + leaf.length := hlt'
    refine .inl ⟨leaf, offset - lengths before, op', text (pending stack'), ?_, hleaf, hisLeaf,
      by omega, fun _ => by omega, ?_, .between hbetween⟩
    · rw [operate, heq]
      rfl
    · have hlength := length_text hbefore
      have hsplit : offset = (text before).length + (offset - lengths before) := by omega
      have hleafUnits := length_units hleaf
      rw [← text_leaves, hleaves, text_append]
      conv_lhs => rw [hsplit, List.drop_length_add_append]
      exact List.drop_append_of_le_length (by omega)
  · obtain rfl : offset = root.toStr.length := Nat.le_antisymm hle hge
    obtain ⟨hdepth, hfound⟩ := searchFrom_end hwf .left
      { op with root := some root, consumed := root.toStr.length, depth := 0, maximumDepth := 1 }
      rfl (Nat.zero_add _).symm (.inr id)
    unfold operate search
    dsimp only
    generalize searchFrom root.toStr.length root.toStr .left 0 _ = result at hdepth hfound ⊢
    obtain ⟨found, op'⟩ := result
    cases found with
    | none => exact .inr ⟨op', rfl, rfl, .done hdepth⟩
    | some found =>
        obtain ⟨leaf, start⟩ := found
        obtain ⟨hleaf, hisLeaf, hend⟩ := hfound _ rfl
        have hstart : root.toStr.length - start = leaf.length := by
          rw [hend]
          exact Nat.add_sub_cancel_left start leaf.length
        refine .inl ⟨leaf, leaf.length, op', [], ?_, hleaf, hisLeaf, by omega,
          fun hlt => absurd hlt (Nat.lt_irrefl _), ?_, .done hdepth⟩
        · rw [Option.map_some, hstart]
        · rw [List.drop_eq_nil_of_le (Nat.le_of_eq (length_units hwf)),
            List.drop_eq_nil_of_le (Nat.le_of_eq (length_units hleaf))]
          rfl

end

end ConsStringIteratorOp

end WeexBridge.V8
