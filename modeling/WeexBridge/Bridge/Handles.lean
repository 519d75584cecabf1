/-
# The global handles `json`, `json_parse` and `json_stringify`

Every nesting level stores into the same three variables.  A use is sound when the
handle is the one the invocation has stored itself and its scope is still open.

    OwnHandles    every use of a trace is sound
    Keeps         what a pending question relies on: the scopes that are open, what
                  their invocations have stored and, while `JSON.parse` or
                  `JSON.stringify` is read, `json` itself

Only that read stands between the store of `json` and its use as receiver: a getter
there that enters the bridge with another object or JSON argument replaces `json`.
-/
import WeexBridge.Bridge.Stable

namespace WeexBridge

open Reentrant

/-! ## Traces -/

def HandleEvent.scope : HandleEvent → Nat
  | .opened scope => scope
  | .closed scope => scope
  | .stored scope _ _ => scope
  | .used scope _ _ => scope

/-- The scopes that are open after a trace. -/
def openScopes : List HandleEvent → List Nat
  | [] => []
  | .opened scope :: trace => scope :: openScopes trace
  | .closed scope :: trace => (openScopes trace).erase scope
  | .stored _ _ _ :: trace => openScopes trace
  | .used _ _ _ :: trace => openScopes trace

/-- What the invocation of `scope` has stored last in `var`. -/
def lastStored (scope : Nat) (var : GlobalHandle) : List HandleEvent → Option ScopedHandle
  | [] => none
  | .stored scope' var' h :: trace =>
      if scope' = scope ∧ var' = var then some h else lastStored scope var trace
  | .opened _ :: trace => lastStored scope var trace
  | .closed _ :: trace => lastStored scope var trace
  | .used _ _ _ :: trace => lastStored scope var trace

/-- Each use is of the handle that the same invocation has stored, and of an open scope.
A scope is opened once, so that it stands for an invocation. -/
inductive OwnHandles : List HandleEvent → Prop where
  | nil : OwnHandles []
  | used {scope var h trace} : lastStored scope var trace = some h →
      h.scope ∈ openScopes trace → OwnHandles trace → OwnHandles (.used scope var h :: trace)
  | opened {scope trace} : (∀ e ∈ trace, e.scope < scope) → OwnHandles trace →
      OwnHandles (.opened scope :: trace)
  | closed {scope trace} : OwnHandles trace → OwnHandles (.closed scope :: trace)
  | stored {scope var h trace} : OwnHandles trace → OwnHandles (.stored scope var h :: trace)

/-! ## States -/

/-- What of a state concerns the global handles. -/
structure HandleView where
  scopes : List Nat
  next : Nat
  trace : List HandleEvent
  handle : GlobalHandle → ScopedHandle

def World.view (s : World) : HandleView := ⟨s.scopes, s.next, s.trace, s.handle⟩

/-- The trace is sound and in step with the open scopes. -/
structure Safe (v : HandleView) : Prop where
  own : OwnHandles v.trace
  scopes : openScopes v.trace = v.scopes
  below : ∀ e ∈ v.trace, e.scope < v.next

/-- Which questions stand between the store of `json` and its use. -/
def Question.readsMember : Question → Bool
  | .get .jsonMember _ _ => true
  | _ => false

/-- What is kept of `v`, and `json` where it is `frozen`. -/
structure Keeps (frozen : Bool) (v v' : HandleView) : Prop where
  scopes : v'.scopes = v.scopes
  next : v.next ≤ v'.next
  stored : ∀ scope < v.next, ∀ var, lastStored scope var v'.trace = lastStored scope var v.trace
  json : frozen = true → v'.handle .json = v.handle .json

theorem Keeps.refl (frozen : Bool) (v : HandleView) : Keeps frozen v v :=
  ⟨rfl, le_refl _, fun _ _ _ => rfl, fun _ => rfl⟩

theorem Keeps.trans {frozen : Bool} {v₁ v₂ v₃ : HandleView} (h : Keeps frozen v₁ v₂)
    (h' : Keeps frozen v₂ v₃) : Keeps frozen v₁ v₃ where
  scopes := h'.scopes.trans h.scopes
  next := le_trans h.next h'.next
  stored scope hscope var :=
    (h'.stored scope (lt_of_lt_of_le hscope h.next) var).trans (h.stored scope hscope var)
  json hf := (h'.json hf).trans (h.json hf)

/-- An invocation that was entered in `v₀` and has opened `scope` is running. -/
structure Inside (v₀ : HandleView) (frozen : Bool) (scope : Nat) (v : HandleView) : Prop where
  safe : Safe v
  scopes : v.scopes = scope :: v₀.scopes
  entered : v₀.next ≤ scope
  next : scope < v.next
  stored : ∀ scope < v₀.next, ∀ var,
    lastStored scope var v.trace = lastStored scope var v₀.trace
  json : frozen = true → v.handle .json = v₀.handle .json

/-- `var` holds what the invocation of `scope` has stored. -/
structure Mine (scope : Nat) (v : HandleView) (var : GlobalHandle) : Prop where
  stored : lastStored scope var v.trace = some (v.handle var)
  scope : (v.handle var).scope = scope

theorem Safe.next {v : HandleView} (hv : Safe v) {n : Nat} (hn : v.next ≤ n) :
    Safe { v with next := n } :=
  ⟨hv.own, hv.scopes, fun e he => lt_of_lt_of_le (hv.below e he) hn⟩

theorem Inside.next' {v₀ v : HandleView} {frozen : Bool} {scope : Nat}
    (hv : Inside v₀ frozen scope v) {n : Nat} (hn : v.next ≤ n) :
    Inside v₀ frozen scope { v with next := n } :=
  ⟨hv.safe.next hn, hv.scopes, hv.entered, lt_of_lt_of_le hv.next hn, hv.stored, hv.json⟩

theorem Inside.keeps {v₀ v v' : HandleView} {frozen frozen' : Bool} {scope : Nat}
    (hv : Inside v₀ frozen scope v) (hsafe : Safe v') (hkeeps : Keeps frozen' v v')
    (hjson : frozen = true → v'.handle .json = v.handle .json) : Inside v₀ frozen scope v' where
  safe := hsafe
  scopes := hkeeps.scopes.trans hv.scopes
  entered := hv.entered
  next := lt_of_lt_of_le hv.next hkeeps.next
  stored scope hscope var :=
    (hkeeps.stored scope (lt_trans (lt_of_lt_of_le hscope hv.entered) hv.next) var).trans
      (hv.stored scope hscope var)
  json hf := (hjson hf).trans (hv.json hf)

/-! ## Inside an invocation -/

/-- What looks only at the handles may be ignored by all that does not touch them. -/
theorem loose_view {rely : Exchange Answer → World → World → Prop} {P : HandleView → Prop}
    (hinv : ∀ {v}, P v → Safe v) (hrely : ∀ {x s s'}, rely x s s' → P s.view → P s'.view)
    (hnext : ∀ {v : HandleView} {n : Nat}, v.next ≤ n → P v → P { v with next := n }) :
    Loose rely (fun s => Safe s.view) fun s => P s.view where
  inv := hinv
  rely := hrely
  next {s _} hn hs := hnext (v := s.view) hn hs
  localRefs _ hs := hs
  strayDeletes _ hs := hs
  callNativeId hs := hs
  callAddElementId hs := hs
  setTimeoutNativeId hs := hs
  logId _ hs := hs
  doubleValueId hs := hs
  wxEnvironment _ hs := hs
  chars _ hs := hs
  globalRefs _ hs := hs
  contexts _ hs := hs
  jThis _ hs := hs
  v8context _ hs := hs

section
variable {rely : Exchange Answer → World → World → Prop} {v₀ : HandleView} {frozen : Bool}
  {scope : Nat}

/-- Inside, and the handles in `vars` are the invocation's own. -/
def Holding (v₀ : HandleView) (frozen : Bool) (scope : Nat) (vars : List GlobalHandle)
    (s : World) : Prop :=
  Inside v₀ frozen scope s.view ∧ ∀ var ∈ vars, Mine scope s.view var

/-- The view after `store`. -/
def HandleView.store (v : HandleView) (scope : Nat) (var : GlobalHandle) (h : ScopedHandle) :
    HandleView :=
  { v with
    trace := .stored scope var h :: v.trace
    handle := fun var' => if var' = var then h else v.handle var' }

theorem store_eq (var : GlobalHandle) (value : Handle) (s : World) : ∃ s',
    Bridge.store var value s = .done () s' ∧
      s'.view = s.view.store s.scope var ⟨value, s.scope⟩ := by
  refine ⟨_, rfl, ?_⟩
  have hhandle : ∀ var', (s.setHandle ⟨value, s.scope⟩ var).handle var' =
      if var' = var then ⟨value, s.scope⟩ else s.handle var' := by
    intro var'
    cases var <;> cases var' <;> rfl
  cases var <;> exact congrArg (HandleView.mk s.scopes s.next _) (funext hhandle)

theorem Inside.store {v : HandleView} (hv : Inside v₀ frozen scope v) {var : GlobalHandle}
    (hfrozen : frozen = true → var ≠ .json) (h : ScopedHandle) :
    Inside v₀ frozen scope (v.store scope var h) where
  safe := by
    refine ⟨.stored hv.safe.own, hv.safe.scopes, fun e he => ?_⟩
    rcases List.mem_cons.mp he with rfl | he
    · exact hv.next
    · exact hv.safe.below e he
  scopes := hv.scopes
  entered := hv.entered
  next := hv.next
  stored scope' hscope var' := by
    have hne : ¬ (scope = scope' ∧ var = var') := fun heq =>
      absurd heq.1.symm (Nat.ne_of_lt (lt_of_lt_of_le hscope hv.entered))
    show (if scope = scope' ∧ var = var' then some h else lastStored scope' var' v.trace) = _
    rw [if_neg hne]
    exact hv.stored scope' hscope var'
  json hf := by
    show (if GlobalHandle.json = var then h else v.handle .json) = _
    rw [if_neg (hfrozen hf).symm]
    exact hv.json hf

theorem mine_store (v : HandleView) (var : GlobalHandle) (value : Handle) :
    Mine scope (v.store scope var ⟨value, scope⟩) var where
  stored := by
    show (if scope = scope ∧ var = var then _ else _) = some (if var = var then _ else _)
    rw [if_pos ⟨rfl, rfl⟩, if_pos rfl]
  scope := by
    show (if var = var then _ else _ : ScopedHandle).scope = scope
    rw [if_pos rfl]

theorem Mine.store {v : HandleView} {var var' : GlobalHandle} (hv : Mine scope v var')
    (hne : var' ≠ var) (h : ScopedHandle) : Mine scope (v.store scope var h) var' where
  stored := by
    show (if scope = scope ∧ var = var' then _ else _) = some (if var' = var then _ else _)
    rw [if_neg fun heq => hne heq.2.symm, if_neg hne]
    exact hv.stored
  scope := by
    show (if var' = var then _ else _ : ScopedHandle).scope = scope
    rw [if_neg hne]
    exact hv.scope

theorem Inside.scope_eq {s : World} (hs : Inside v₀ frozen scope s.view) : s.scope = scope := by
  have hscopes : s.scopes = scope :: v₀.scopes := hs.scopes
  rw [World.scope, hscopes]
  rfl

theorem holding_store {vars : List GlobalHandle} {var : GlobalHandle}
    (hfrozen : frozen = true → var ≠ .json) (value : Handle) :
    Triple rely (fun s => Safe s.view) (Holding v₀ frozen scope vars) (Bridge.store var value)
      fun _ => Holding v₀ frozen scope (var :: vars) := by
  rintro s ⟨hs, hmine⟩
  obtain ⟨s', hrun, hview⟩ := store_eq var value s
  rw [hs.scope_eq] at hview
  rw [hrun]
  show Inside _ _ _ s'.view ∧ ∀ var' ∈ var :: vars, Mine scope s'.view var'
  rw [hview]
  refine ⟨hs.store hfrozen _, fun var' hvar => ?_⟩
  rcases eq_or_ne var' var with rfl | hne
  · exact mine_store _ _ _
  · exact (hmine var' (List.mem_of_ne_of_mem hne hvar)).store hne _

theorem holding_use {vars : List GlobalHandle} {var : GlobalHandle} (hvar : var ∈ vars) :
    Triple rely (fun s => Safe s.view) (Holding v₀ frozen scope vars) (Bridge.use var)
      fun _ => Holding v₀ frozen scope vars := by
  rintro s ⟨hs, hmine⟩
  have hown := hmine var hvar
  have hopen : (s.handle var).scope ∈ openScopes s.trace := by
    have hscopes : openScopes s.trace = scope :: v₀.scopes := hs.safe.scopes.trans hs.scopes
    have hscope : (s.handle var).scope = scope := hown.scope
    rw [hscopes, hscope]
    exact List.mem_cons_self
  have hsafe : OwnHandles (.used scope var (s.handle var) :: s.trace) :=
    .used hown.stored hopen hs.safe.own
  have hbelow : ∀ e ∈ HandleEvent.used scope var (s.handle var) :: s.trace,
      e.scope < s.next := by
    intro e he
    rcases List.mem_cons.mp he with rfl | he
    · exact hs.next
    · exact hs.safe.below e he
  rw [← hs.scope_eq] at hsafe hbelow
  exact ⟨⟨⟨hsafe, hs.safe.scopes, hbelow⟩, hs.scopes, hs.entered, hs.next, hs.stored, hs.json⟩,
    fun var' hvar' => ⟨(hmine var' hvar').stored, (hmine var' hvar').scope⟩⟩

theorem holding_jString2V8String {vars : List GlobalHandle} (str : Option (List UInt16)) :
    Triple rely (fun s => Safe s.view) (Holding v₀ frozen scope vars)
      (Bridge.jString2V8String str) fun _ => Holding v₀ frozen scope vars := by
  rintro s ⟨hs, hmine⟩
  obtain ⟨text, n, hrun, hn, -⟩ := Bridge.jString2V8String_eq str s
  rw [hrun]
  exact ⟨hs.next' hn, fun var hvar => ⟨(hmine var hvar).stored, (hmine var hvar).scope⟩⟩

theorem holding_asString {vars : List GlobalHandle} (data : Option JavaObject) :
    Triple rely (fun s => Safe s.view) (Holding v₀ frozen scope vars)
      (Bridge.asString data) fun _ => Holding v₀ frozen scope vars := by
  cases data with
  | none => exact fun _ hs => hs
  | some object =>
      cases object with
      | string units => exact fun _ hs => hs
      | _ => exact fun _ hs => hs.1.safe

variable
  (hrely : ∀ x s s', rely x s s' → Safe s'.view ∧ Keeps x.question.readsMember s.view s'.view)
include hrely

/-- While the member is read, `json` is kept. -/
theorem holding_objectGet (json : Handle) (name : HeapString) :
    Triple rely (fun s => Safe s.view) (Holding v₀ frozen scope [.json])
      (Bridge.objectGet .jsonMember json name) fun _ => Holding v₀ frozen scope [.json] := by
  cases json with
  | none => exact fun _ hs => hs.1.safe
  | some v =>
      rintro s ⟨hs, hmine⟩
      show Meets _ _ _ ((if v.isSmi then Program.crash else Bridge.ask
        (.get .jsonMember v name) : Bridge Handle) s)
      split_ifs
      · exact hs.safe
      · refine ⟨hs.safe, fun member s' hx => ?_⟩
        obtain ⟨hsafe, hkeeps⟩ := hrely _ s s' hx
        refine ⟨hs.keeps hsafe hkeeps fun _ => hkeeps.json rfl, fun var hvar => ?_⟩
        obtain rfl := List.mem_singleton.mp hvar
        have hown := hmine .json List.mem_cons_self
        refine ⟨?_, ?_⟩
        · rw [hkeeps.json rfl]
          exact (hkeeps.stored scope hs.next .json).trans hown.stored
        · rw [hkeeps.json rfl]
          exact hown.scope

variable (hfrozen : frozen = true → ∀ x s s', rely x s s' → s'.json = s.json)
include hfrozen

theorem loose_inside :
    Loose rely (fun s => Safe s.view) fun s => Inside v₀ frozen scope s.view :=
  loose_view Inside.safe
    (fun {x s s'} hx hs =>
      hs.keeps (hrely x s s' hx).1 (hrely x s s' hx).2 fun hf => hfrozen hf x s s' hx)
    fun hn hs => hs.next' hn

/-- From the store of `json` to its use as receiver. -/
theorem inside_stringifyToBytes (hmay : frozen = false) (arg : Handle) :
    Preserves rely (fun s => Safe s.view) (fun s => Inside v₀ frozen scope s.view)
      (Bridge.stringifyToBytes arg) := by
  have h : Loose rely (fun s => Safe s.view) fun s => Inside v₀ frozen scope s.view :=
    loose_inside hrely hfrozen
  have hstore {var : GlobalHandle} : frozen = true → var ≠ .json := fun hf => by
    rw [hmay] at hf
    cases hf
  refine h.globalObject.bind fun global => (h.objectGet _ _ _).bind fun json => ?_
  have hstart : Triple rely (fun s => Safe s.view) (Holding v₀ frozen scope [])
      (Bridge.store .json json) fun _ => Holding v₀ frozen scope [.json] :=
    holding_store hstore json
  refine Triple.bind (hstart.strengthen fun hs => ⟨hs, nofun⟩) fun _ => ?_
  refine Triple.bind (holding_use List.mem_cons_self) fun receiver => ?_
  refine Triple.bind (holding_objectGet hrely receiver _) fun member => ?_
  refine Triple.bind (holding_store hstore member) fun _ => ?_
  refine Triple.bind (holding_use List.mem_cons_self) fun callee => ?_
  refine Triple.bind (holding_use (List.mem_cons_of_mem _ List.mem_cons_self)) fun receiver => ?_
  exact Triple.strengthen (Triple.bind (h.functionCall _ _ _ _) fun _ =>
    Triple.bind (h.utf8Value _ _) fun _ => h.newByteArray _) And.left

theorem inside_jsonArgument (hmay : frozen = false) (data : Option JavaObject) :
    Preserves rely (fun s => Safe s.view) (fun s => Inside v₀ frozen scope s.view)
      (Bridge.jsonArgument data) := by
  have h : Loose rely (fun s => Safe s.view) fun s => Inside v₀ frozen scope s.view :=
    loose_inside hrely hfrozen
  have hstore {var : GlobalHandle} : frozen = true → var ≠ .json := fun hf => by
    rw [hmay] at hf
    cases hf
  refine h.globalObject.bind fun global => (h.objectGet _ _ _).bind fun json => ?_
  have hstart : Triple rely (fun s => Safe s.view) (Holding v₀ frozen scope [])
      (Bridge.store .json json) fun _ => Holding v₀ frozen scope [.json] :=
    holding_store hstore json
  refine Triple.bind (hstart.strengthen fun hs => ⟨hs, nofun⟩) fun _ => ?_
  refine Triple.bind (holding_use List.mem_cons_self) fun receiver => ?_
  refine Triple.bind (holding_objectGet hrely receiver _) fun member => ?_
  refine Triple.bind (holding_store hstore member) fun _ => ?_
  refine Triple.bind (holding_asString data) fun units => ?_
  refine Triple.bind (holding_jString2V8String units) fun text => ?_
  refine Triple.bind (holding_use List.mem_cons_self) fun callee => ?_
  refine Triple.bind (holding_use (List.mem_cons_of_mem _ List.mem_cons_self)) fun receiver => ?_
  exact (h.functionCall _ _ _ _).strengthen And.left

/-! ## Every entry point -/

theorem loose_keeps :
    Loose rely (fun s => Safe s.view) fun s => Safe s.view ∧ Keeps frozen v₀ s.view :=
  loose_view (P := fun v => Safe v ∧ Keeps frozen v₀ v) And.left
    (fun {x s s'} hx hs => ⟨(hrely x s s' hx).1, hs.2.trans ⟨(hrely x s s' hx).2.scopes,
      (hrely x s s' hx).2.next, (hrely x s s' hx).2.stored,
      fun hf => congrArg id (hfrozen hf x s s' hx)⟩⟩)
    fun hn hs => ⟨hs.1.next hn, hs.2.trans ⟨rfl, hn, fun _ _ _ => rfl, fun _ => rfl⟩⟩

omit hrely hfrozen in
theorem Inside.opened {s : World} (hsafe : Safe s.view) (hkeeps : Keeps frozen v₀ s.view) :
    Inside v₀ frozen s.next
      ⟨s.next :: s.scopes, s.next + 1, .opened s.next :: s.trace, s.handle⟩ where
  safe := by
    refine ⟨.opened hsafe.below hsafe.own, congrArg (s.next :: ·) hsafe.scopes, fun e he => ?_⟩
    rcases List.mem_cons.mp he with rfl | he
    · exact Nat.lt_succ_self _
    · exact Nat.lt_succ_of_lt (hsafe.below e he)
  scopes := congrArg (s.next :: ·) hkeeps.scopes
  entered := hkeeps.next
  next := Nat.lt_succ_self _
  stored := hkeeps.stored
  json := hkeeps.json

omit hrely hfrozen in
theorem Inside.closed {s : World} (hs : Inside v₀ frozen scope s.view) :
    Safe ⟨s.scopes.tail, s.next, .closed s.scope :: s.trace, s.handle⟩ ∧
      Keeps frozen v₀ ⟨s.scopes.tail, s.next, .closed s.scope :: s.trace, s.handle⟩ := by
  have hscope := hs.scope_eq
  have hscopes : s.scopes = scope :: v₀.scopes := hs.scopes
  have hopen : openScopes s.trace = s.scopes := hs.safe.scopes
  refine ⟨⟨.closed hs.safe.own, ?_, fun e he => ?_⟩, ?_, ?_, hs.stored, hs.json⟩
  · show (openScopes s.trace).erase s.scope = s.scopes.tail
    rw [hopen, hscopes, hscope, List.erase_cons_head]
    rfl
  · rcases List.mem_cons.mp he with rfl | he
    · show s.scope < s.next
      rw [hscope]
      exact hs.next
    · exact hs.safe.below e he
  · show s.scopes.tail = v₀.scopes
    rw [hscopes]
    rfl
  · exact le_of_lt (lt_of_le_of_lt hs.entered hs.next)

omit hrely hfrozen in
theorem keeps_withHandleScope {α : Type} {code : Bridge α}
    (hc : ∀ scope, Preserves rely (fun s => Safe s.view)
      (fun s => Inside v₀ frozen scope s.view) code) :
    Preserves rely (fun s => Safe s.view) (fun s => Safe s.view ∧ Keeps frozen v₀ s.view)
      (Bridge.withHandleScope code) := by
  rintro s ⟨hsafe, hkeeps⟩
  let opened : World := { s with
    scopes := s.next :: s.scopes
    next := s.next + 1
    trace := .opened s.next :: s.trace }
  refine (hc s.next opened (Inside.opened hsafe hkeeps)).bind fun {value t} ht => ?_
  exact ht.closed

/-- The entry points that store into `json`. -/
def Entry.storesJson : Entry → Bool
  | .execJS _ _ _ jargs => jargs.any fun arg => arg.type = 3
  | .callNative args => (args.get 1).any Value.isObject
  | .callAddElement args => (args.get 2).any Value.isObject
  | _ => false

theorem keeps_body : ∀ entry : Entry, (frozen = true → entry.storesJson = false) →
    Preserves rely (fun s => Safe s.view) (fun s => Safe s.view ∧ Keeps frozen v₀ s.view)
      (body entry) := by
  have h : Loose rely (fun s => Safe s.view) fun s => Safe s.view ∧ Keeps frozen v₀ s.view :=
    loose_keeps hrely hfrozen
  have h' (scope : Nat) : Loose rely (fun s => Safe s.view)
      fun s => Inside v₀ frozen scope s.view := loose_inside hrely hfrozen
  intro entry hstores
  have hmay (hstore : entry.storesJson = true) : frozen = false := by
    cases hf : frozen with
    | false => rfl
    | true => cases hstore.symm.trans (hstores hf)
  cases entry with
  | initFramework script =>
      exact h.withLocalFrame (keeps_withHandleScope fun scope =>
        ((h' scope).initFramework script).bind fun _ => Preserves.pure _)
  | execJS jinstanceid jnamespace jfunction jargs =>
      refine h.withLocalFrame (keeps_withHandleScope fun scope =>
        ((h' scope).execJS _ jnamespace jfunction jargs (fun arg harg htype => ?_)
          ((h' scope).callFunction _ _ _)).bind fun _ => Preserves.pure _)
      exact inside_jsonArgument hrely hfrozen
        (hmay (List.any_eq_true.mpr ⟨arg, harg, decide_eq_true htype⟩)) _
  | callNative args =>
      refine keeps_withHandleScope fun scope =>
        ((h' scope).callNative args fun v hv hobject => ?_).bind fun _ => Preserves.pure _
      exact inside_stringifyToBytes hrely hfrozen (hmay (by
        show (args.get 1).any Value.isObject = true
        rw [hv]
        exact hobject)) _
  | callAddElement args =>
      refine keeps_withHandleScope fun scope =>
        ((h' scope).callAddElement args fun v hv hobject => ?_).bind fun _ => Preserves.pure _
      exact inside_stringifyToBytes hrely hfrozen (hmay (by
        show (args.get 2).any Value.isObject = true
        rw [hv]
        exact hobject)) _
  | setTimeoutNative args =>
      exact keeps_withHandleScope fun scope =>
        ((h' scope).setTimeoutNative args).bind fun _ => Preserves.pure _
  | nativeLog args =>
      exact keeps_withHandleScope fun scope =>
        ((h' scope).nativeLog args).bind fun _ => Preserves.pure _
  | onUnload => exact h.withLocalFrame (h.onUnload.bind fun _ => Preserves.pure _)

end

/-! ## In every run -/

/-- Every entry point closes the scope it opens and leaves what outer invocations have
stored; while a member of `json` is read only those are let in that leave `json`. -/
def handleContract : Contract body where
  keeps q s s' := Keeps q.readsMember s.view s'.view
  base s s' := Keeps false s.view s'.view
  safe s := Safe s.view
  valid _ := True
  admits q entry := q.readsMember = true → entry.storesJson = false
  admitted _ _ := True
  keeps_refl _ _ := Keeps.refl _ _
  keeps_trans := Keeps.trans
  base_refl _ := Keeps.refl _ _
  base_trans := Keeps.trans
  keeps_body {_ e s} hadmits _ hs :=
    (keeps_body (fun _ _ _ hr => hr.1.2) (fun hf _ _ _ hr => hr.2.json hf) e hadmits s
      ⟨hs, Keeps.refl _ _⟩).mono And.right
  base_body {e s} _ hs :=
    (@keeps_body _ _ false (fun _ _ _ hr => hr.1.2) (fun hf => absurd hf Bool.false_ne_true)
      e (fun hf => absurd hf Bool.false_ne_true) s ⟨hs, Keeps.refl _ _⟩).mono And.symm

/-- The moves of the runs in which no getter of `JSON.parse` or `JSON.stringify`, while the
bridge reads it, enters the bridge with another object or JSON argument. -/
def LeavesJson (c : BridgeConfig) : BridgeMove → Prop
  | .enter entry => ∀ f ∈ c.stack, f.question.readsMember = true → entry.storesJson = false
  | .answer _ => True

/-- In every such run each use of a global handle is of the handle that the same invocation
has stored, whose scope is open. -/
theorem ownHandles_of_leavesJson {platform : Platform} {c : BridgeConfig}
    (hc : Reachable body LeavesJson (.loaded platform) c) : OwnHandles c.state.trace := by
  have hadmits : ∀ {c m}, LeavesJson c m → handleContract.Admits c m := by
    intro c m hm
    cases m with
    | enter entry => exact ⟨trivial, hm⟩
    | answer x => exact trivial
  have hloaded : Safe (World.loaded platform).view :=
    ⟨.nil, rfl, fun e he => absurd he List.not_mem_nil⟩
  exact (handleContract.safe_of_reachable hadmits hloaded hc).own

/-- `execJS` with a JSON argument. -/
theorem ownHandles_execJS : OwnHandles ((body (.execJS none none (some [0x66])
    [⟨3, some (.string [0x31])⟩]) (.initialised .plain)).play Question.usual).2.2.trace := by
  have hplay (entry : Entry) : OwnHandles ((body entry (.initialised .plain)).play
      Question.usual).2.2.trace := by
    have hanswer : ∀ x : Exchange Answer, x.answer = x.question.usual →
        ∀ c, LeavesJson c (.answer x) := fun _ _ _ => trivial
    have hinit : LeavesJson (initial (.loaded .plain)) (.enter (.initFramework (some []))) :=
      fun f hf => absurd hf List.not_mem_nil
    obtain ⟨c, hc, hstate, hstack, hcrashed⟩ := reachable_initialised hinit hanswer
    have hentry : LeavesJson c (.enter entry) := fun f hf => by
      rw [hstack] at hf
      exact absurd hf List.not_mem_nil
    obtain ⟨c', hc', hstate', -⟩ := reachable_play hc hcrashed hentry Question.usual hanswer
    have hown := ownHandles_of_leavesJson hc'
    rw [hstate', hstate] at hown
    exact hown
  exact hplay _

/-- The latest event is no use of a closed scope. -/
def openUse : List HandleEvent → Bool
  | .used _ _ h :: trace => decide (h.scope ∈ openScopes trace)
  | _ => true

theorem OwnHandles.openUse {trace : List HandleEvent} : OwnHandles trace →
    openUse trace = true
  | .nil => rfl
  | .used _ hopen _ => decide_eq_true hopen
  | .opened _ _ => rfl
  | .closed _ => rfl
  | .stored _ => rfl

/-- A getter of `JSON.parse` that calls `callNative` with an object, while `execJS` converts
a JSON argument. -/
theorem not_ownHandles : ¬ ∀ {platform c}, AnyRun platform c → OwnHandles c.state.trace := by
  intro h
  let entry : Entry := .execJS none none (some [0x66]) [⟨3, some (.string [0x31])⟩]
  let inner : Entry := .callNative ⟨[.null, .object 5]⟩
  let between (s : World) : World := ((body inner s).play Question.usual).2.2
  obtain ⟨c, hc, hstate, -, hcrashed⟩ : ∃ c : BridgeConfig, AnyRun .plain c ∧
      c.state = .initialised .plain ∧ c.stack = [] ∧ c.crashed = false :=
    reachable_initialised trivial fun _ _ _ => trivial
  have hentered : AnyRun .plain (settle c entry c.state [] (body entry c.state)) :=
    Reachable.step hc trivial (Step.enter entry hcrashed)
  rw [hstate] at hentered
  -- `global->Get("JSON")`, and then a getter of `parse`
  obtain ⟨c₁, h₁, hc₁, hcrashed₁⟩ := reachable_answer (f := id) Question.usual
    (fun _ _ _ => trivial) hentered hcrashed fun hr hcr hs => ⟨_, hr, hs, rfl, hcr⟩
  have hreturned : ((body inner ((body entry (.initialised .plain)).answer Question.usual
      id).state).play Question.usual).2.1.isReturned = true := by decide +kernel
  obtain ⟨c₂, h₂, hc₂, -⟩ := reachable_answer (f := between) Question.usual
    (fun _ _ _ => trivial) hc₁ hcrashed₁ fun {c'} hr hcr hs => by
      obtain ⟨c'', hc'', hstate'', hstack'', -, hcrashed''⟩ := reachable_play hr hcr
        (trivial : (fun _ _ => True) c' (Move.enter inner)) Question.usual fun _ _ _ => trivial
      rw [hs] at hstate'' hcrashed''
      rw [hreturned] at hcrashed''
      exact ⟨c'', hc'', hstate'', hstack'', hcrashed''⟩
  have hused : openUse (((body entry (.initialised .plain)).answer Question.usual id).answer
      Question.usual between).state.trace = false := by decide +kernel
  have hown := h hc₂
  rw [settle_state] at hown
  exact absurd (hused.symm.trans hown.openUse) Bool.false_ne_true

end WeexBridge
