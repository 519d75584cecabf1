/-
# The same outcome

What `JSON.stringify` of one argument does in an environment, and what the serializer
of `json.js` does there: the questions put to user code, the states they are put in,
what user code makes of them, and the text or the exception at the end.

The two are the same where no assertion fails.  One that does is the one about
`FAST_ELEMENTS`: when `toJSON` of an element changes the length of the array, the
fast loop ends there, and the text with it.
-/
import WeexBridge.V8.JsonAgreement

namespace WeexBridge.V8

open Reentrant

namespace JsonSerialize

/-! ## Without the assertions -/

/-- `q` is `p` without its assertions. -/
def Erases {α : Type} (p q : JsProgram α) : Prop := ∀ s, FollowsFrom s Eq p q

namespace Erases

variable {α β : Type}

theorem refl (p : JsProgram α) : Erases p p := fun _ => FollowsFrom.refl (fun _ => rfl) p

theorem bind {p q : JsProgram α} {f g : α → JsProgram β} (h : Erases p q)
    (hf : ∀ value, Erases (f value) (g value)) : Erases (p >>= f) (q >>= g) :=
  fun s => (h s).bind fun {value _} s heq => heq ▸ hf value s

theorem same {p : JsProgram α} {f g : α → JsProgram β}
    (hf : ∀ value, Erases (f value) (g value)) : Erases (p >>= f) (p >>= g) :=
  (refl p).bind hf

theorem check {condition : JsHeap → Bool} {p q : JsProgram α} (h : Erases p q) :
    Erases (checked condition >>= fun _ => p) (unchecked condition >>= fun _ => q) :=
  fun s => FollowsFrom.check fun _ => h s

end Erases

/-- The same for serializers. -/
def ErasesSerializer (p q : Serializer) : Prop :=
  ∀ before stack key value, Erases (p before stack key value) (q before stack key value)

section
variable {platform : JsonPlatform} {p q : Serializer}

theorem erases_applyToJson (key : PropertyKey) : ∀ value,
    Erases (applyToJson checked key value) (applyToJson unchecked key value)
  | .object _ => Erases.same fun _ => Erases.check (Erases.refl _)
  | .undefined => Erases.refl _
  | .null => Erases.refl _
  | .boolean _ => Erases.refl _
  | .number _ => Erases.refl _
  | .string _ => Erases.refl _

theorem erases_element (ref i : Nat) : Erases (element checked ref i) (element unchecked ref i) :=
  Erases.same fun _ => Erases.check (Erases.refl _)

theorem erases_written (before : Nat) (text : List UInt16) :
    Erases (written checked before text) (written unchecked before text) :=
  Erases.check (Erases.refl _)

theorem erases_serializeProperty (h : ErasesSerializer p q) (before : Nat) (stack : List Nat)
    (key : PropertyKey) {property property' : JsProgram (Except JsValue JsValue)}
    (hproperty : Erases property property') :
    Erases (serializeProperty p before stack key property)
      (serializeProperty q before stack key property') := by
  refine hproperty.bind fun value => ?_
  cases value with
  | ok value => exact h before stack key value
  | error e => exact Erases.refl _

theorem erases_serializeElements (h : ErasesSerializer p q) (before : Nat) (stack : List Nat)
    (ref : Nat) (elements : ArrayElements) : ∀ (rest i : Nat) (members : Members),
      Erases (serializeElements checked p before stack ref elements i rest members)
        (serializeElements unchecked q before stack ref elements i rest members)
  | 0, _, _ => Erases.refl _
  | rest + 1, i, members => by
      unfold serializeElements
      refine Erases.check (Erases.check
        ((erases_serializeProperty h _ stack _ (erases_element ref i)).bind fun r => ?_))
      cases r with
      | ok text =>
          exact Erases.check (erases_serializeElements h before stack ref elements rest (i + 1) _)
      | error e => exact Erases.refl _

theorem erases_bracketed (left right : UInt16) (before : Nat) (r : Except Thrown Members) :
    Erases (bracketed checked left right before r) (bracketed unchecked left right before r) := by
  cases r with
  | ok members => exact Erases.same fun _ => Erases.same fun _ => erases_written _ _
  | error e => exact Erases.refl _

theorem erases_serializeArray (h : ErasesSerializer p q) (before : Nat) (stack : List Nat)
    (ref : Nat) (elements : ArrayElements) :
    Erases (serializeArray platform checked p before stack ref elements)
      (serializeArray platform unchecked q before stack ref elements) :=
  Erases.check (Erases.check ((erases_serializeElements h _ stack ref elements _ _ _).bind
    fun r => erases_bracketed _ _ before r))

theorem erases_serializeKeys (h : ErasesSerializer p q) (before : Nat) (stack : List Nat)
    (ref : Nat) : ∀ (keys : List PropertyKey) (own : Nat) (members : Members),
      Erases (serializeKeys platform checked p before stack ref own keys members)
        (serializeKeys platform unchecked q before stack ref own keys members)
  | [], _, _ => Erases.refl _
  | key :: keys, own, members => by
      have hloop := erases_serializeKeys h before stack ref keys (own - 1)
      unfold serializeKeys
      refine Erases.check (Erases.same fun isOwn => ?_)
      split_ifs
      · refine (erases_serializeProperty h _ stack key (Erases.refl _)).bind fun r => ?_
        rcases r with e | _ | text
        · exact Erases.refl _
        · exact hloop members
        · exact Erases.same fun name => Erases.same fun member => hloop _
      · exact hloop members

theorem erases_serializeObject (h : ErasesSerializer p q) (before : Nat) (stack : List Nat)
    (ref : Nat) :
    Erases (serializeObject platform checked p before stack ref)
      (serializeObject platform unchecked q before stack ref) :=
  Erases.check (Erases.same fun keys => Erases.same fun ownKeys =>
    (erases_serializeKeys h _ stack ref keys ownKeys.length []).bind
      fun r => erases_bracketed _ _ before r)

section
variable {nested nested' : Option Serializer}
  (hnested : ∀ p ∈ nested, ∃ q ∈ nested', ErasesSerializer p q)
include hnested

theorem erases_withPushIfAbsent (stack : List Nat) (ref : Nat)
    {code code' : Serializer → List Nat → JsProgram JsonResult}
    (hcode : ∀ p q, ErasesSerializer p q → ∀ stack, Erases (code p stack) (code' q stack)) :
    Erases (withPushIfAbsent checked nested stack ref code)
      (withPushIfAbsent unchecked nested' stack ref code') := by
  cases nested with
  | none => exact fun s => FollowsFrom.check fun hfalse => nomatch hfalse
  | some p =>
      obtain ⟨q, hq, h⟩ := hnested p rfl
      cases hq
      unfold withPushIfAbsent
      dsimp only
      split_ifs
      · exact Erases.refl _
      · exact hcode p q h _

theorem erases_serializeReference (before : Nat) (stack : List Nat) (ref : Nat) :
    Erases (serializeReference platform checked nested before stack ref)
      (serializeReference platform unchecked nested' before stack ref) := by
  refine Erases.same fun kind => ?_
  cases kind with
  | array elements =>
      exact Erases.check (erases_withPushIfAbsent hnested stack ref fun p q h stack =>
        erases_serializeArray h before stack ref elements)
  | ordinary =>
      exact Erases.check (erases_withPushIfAbsent hnested stack ref fun p q h stack =>
        erases_serializeObject h before stack ref)
  | stringWrapper =>
      refine Erases.check (Erases.same fun answer => ?_)
      cases answer with
      | ok value => exact Erases.same fun _ => erases_written _ _
      | error e => exact Erases.refl _
  | numberWrapper =>
      refine Erases.check (Erases.same fun answer => ?_)
      cases answer with
      | ok n => exact erases_written _ _
      | error e => exact Erases.refl _
  | booleanWrapper b => exact erases_written _ _
  | function => exact Erases.refl _

theorem erases_serialize : ErasesSerializer (serialize platform checked nested)
    (serialize platform unchecked nested') := by
  intro before stack key value
  refine (erases_applyToJson key value).bind fun r => ?_
  cases r with
  | error e => exact Erases.refl _
  | ok value =>
      cases value with
      | undefined => exact Erases.refl _
      | null => exact erases_written _ _
      | boolean b => exact erases_written _ _
      | number n => exact erases_written _ _
      | string value => exact Erases.same fun _ => erases_written _ _
      | object ref => exact erases_serializeReference hnested before stack ref

omit hnested in
theorem erases_serializer : ∀ {limit limit' : Nat}, limit ≤ limit' →
    ErasesSerializer (serializer platform checked limit) (serializer platform unchecked limit')
  | 0, 0, _ => erases_serialize nofun
  | 0, _ + 1, _ => erases_serialize nofun
  | limit + 1, limit' + 1, hle => erases_serialize fun p hp => by
      cases hp
      exact ⟨_, rfl, erases_serializer (Nat.le_of_succ_le_succ hle)⟩

end

/-! ## The number of members -/

/-- Whatever user code does to the array, there are as many members as it had when the
loop began. -/
theorem length_serializeElements (before : Nat) (stack : List Nat) (ref : Nat)
    (elements : ArrayElements) : ∀ (rest i : Nat) (members : Members),
      Returns (fun _ _ _ => True)
        (serializeElements unchecked p before stack ref elements i rest members)
        fun _ r => ∀ members', r = .ok members' → members'.length = members.length + rest
  | 0, _, members => by
      refine (Returns.pure _).consequence fun {h r} hr members' hmembers => ?_
      cases hr.2.symm.trans hmembers
      rfl
  | rest + 1, i, members => by
      unfold serializeElements
      have hcheck : ∀ condition, Returns (fun _ _ _ => True) (unchecked condition)
          fun (h : List (Exchange JsAnswer)) _ => h = [] :=
        fun _ => (Returns.pure ()).consequence And.left
      refine Returns.skip (hcheck _) fun _ => Returns.skip (hcheck _) fun _ => ?_
      have hproperty : ∀ n, Returns (fun _ _ _ => True)
          (serializeProperty p n stack (.index i) (element unchecked ref i)) fun _ _ => True :=
        fun _ _ _ _ _ _ => trivial
      refine (hproperty _).bind fun {r _} _ => ?_
      cases r with
      | ok text =>
          refine Returns.skip (hcheck _) fun _ => ?_
          refine (length_serializeElements before stack ref elements rest (i + 1) _).consequence
            fun {_ r} hr members' hmembers => ?_
          rw [hr members' hmembers, List.length_append, Nat.add_assoc, Nat.add_comm rest 1]
          rfl
      | error e =>
          refine (Returns.pure _).consequence fun {_ r} hr members' hmembers => ?_
          cases hr.2.symm.trans hmembers

end

end JsonSerialize

open JsonSerialize

/-! ## The outcome -/

/-- In the environment, `JSON.stringify` of the value asks of user code what the
serializer of `json.js` asks, leaves the same heap, and has the same result. -/
def SameOutcome (platform : JsonPlatform) (limit limit' : Nat) (value : JsValue) (heap : JsHeap)
    (env : Environment JsAnswer JsHeap) : Prop :=
  (basicJsonStringify platform limit value heap).against env [] =
    (jsonSerialize platform unchecked limit' value heap).against env []

/-- As far as `limit` levels deep, no assertion fails in the run of `json.js`. -/
def AssertionsHold (platform : JsonPlatform) (limit : Nat) (value : JsValue) (heap : JsHeap)
    (env : Environment JsAnswer JsHeap) : Prop :=
  (jsonSerialize platform checked limit value heap).Holds env

section
variable {platform : JsonPlatform}

theorem erases_jsonSerialize (platform : JsonPlatform) {limit limit' : Nat} (hle : limit ≤ limit')
    (value : JsValue) : Erases (jsonSerialize platform checked limit value)
      (jsonSerialize platform unchecked limit' value) :=
  erases_serializeProperty (erases_serializer hle) 0 [] _ (Erases.refl _)

/-- The fast serializer gives the result of the plain one. -/
theorem follows_basicJsonStringify (hplatform : PrintsIntegers platform) {limit limit' : Nat}
    (hle : limit ≤ limit') (value : JsValue) (s : JsHeap) :
    FollowsFrom s Eq (jsonSerialize platform checked limit value)
      (basicJsonStringify platform limit' value) := by
  have hstart : (JsonWriter.start platform.fill).Ok := JsonWriter.ok_start
  have hfollows := (simulates_serializer hplatform hle).follows [] ⟨false, false⟩
    (.name (.ofBytes [])) value s hstart (n := 0) rfl
  rw [← bind_pure (jsonSerialize platform checked limit value)]
  refine FollowsFrom.bind hfollows fun {r result} s h => ?_
  cases h with
  | unchanged => exact FollowsFrom.pure rfl
  | success _ hlength htext =>
      dsimp only
      rw [JsonWriter.result_eq hlength, htext]
      exact FollowsFrom.pure rfl
  | exception => exact FollowsFrom.pure rfl
  | circular => exact FollowsFrom.pure rfl

/-- Whatever user code does, `JSON.stringify` has the outcome of the serializer of
`json.js`, if no assertion fails. -/
theorem sameOutcome_of_assertionsHold (hplatform : PrintsIntegers platform)
    {limit limit₁ limit₂ : Nat} (hle₁ : limit ≤ limit₁) (hle₂ : limit ≤ limit₂) {value : JsValue}
    {heap : JsHeap} {env : Environment JsAnswer JsHeap}
    (h : AssertionsHold platform limit value heap env) :
    SameOutcome platform limit₁ limit₂ value heap env := by
  obtain ⟨events, r, r₁, t, hr, hr₁, rfl⟩ :=
    (follows_basicJsonStringify hplatform hle₁ value heap).against env h
  obtain ⟨events', r', r₂, t', hr', hr₂, rfl⟩ :=
    (erases_jsonSerialize platform hle₂ value heap).against env h
  cases hr.symm.trans hr'
  exact hr₁.trans hr₂.symm

end

/-! ## An array that grows under way -/

/-- A build whose text of a double is right for integers. -/
def JsonPlatform.plain : JsonPlatform where
  fill _ := 0
  doubleToCString bits := ((smiOfDouble bits).map intToCString).getD []
  pointerAsSmi n := n

theorem printsIntegers_plain : PrintsIntegers .plain := by
  intro bits n h
  show CodeUnits.cString (((smiOfDouble bits).map intToCString).getD []) = _
  rw [h]
  rfl

/-- `[o, 2]`, or the array once it has `length` elements, where `o` has a `toJSON`. -/
def JsHeap.withToJson (length : Nat) : JsHeap where
  objects
    | 0 => ⟨.array (.fast 0 length), ⟨0, [], fun _ => rfl⟩, .dictionary [], []⟩
    | 1 => ⟨.ordinary, ⟨0, [], fun _ => rfl⟩,
        .dictionary [⟨.ofBytes (literalBytes "toJSON"), false, .data (.object 2)⟩], []⟩
    | _ => ⟨.function, ⟨0, [], fun _ => rfl⟩, .dictionary [], []⟩
  stores _ := some (.object 1) :: some (.number (.smi 2)) ::
    List.replicate (length - 2) (some (.number (.smi 3)))

/-- `toJSON` returns 1, and the array has `length` elements then. -/
def returningOne (length : Nat) : Environment JsAnswer JsHeap := fun _ question heap =>
  match question with
  | .getter _ _ => (.ok .undefined, heap)
  | .toJson _ _ _ => (.ok (.number (.smi 1)), .withToJson length)
  | .toString _ => (.ok (.ofBytes []), heap)
  | .toNumber _ => (.ok (.smi 0), heap)

/-- `[1,2]`, when `toJSON` leaves the array as it is. -/
theorem sameOutcome_array :
    SameOutcome .plain 10 10 (.object 0) (.withToJson 2) (returningOne 2) := by
  refine sameOutcome_of_assertionsHold printsIntegers_plain (Nat.le_refl 10) (Nat.le_refl 10) ?_
  show Outcome.isReturned _ = true
  decide +kernel

/-- The text, where there is one. -/
def textOf : Outcome JsonResult → Option (List UInt16)
  | .returned (.ok text) => text
  | _ => none

/-- `[1]` and `[1,2]`, when `toJSON` adds an element. -/
theorem not_sameOutcome :
    ¬ SameOutcome .plain 10 10 (.object 0) (.withToJson 2) (returningOne 3) := by
  intro h
  have htext := congrArg (fun run => textOf run.2.1) h
  revert htext
  decide +kernel

end WeexBridge.V8
