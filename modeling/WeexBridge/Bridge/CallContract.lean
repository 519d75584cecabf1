/-
# The contract of `execJS`

`execJS` is to call the function that it is asked for, once, with the conversions of all
arguments; where an argument or the function cannot be had it is to call none.  Where
there is no result it reports one exception.  It keeps this contract exactly when it is
`Servable`: otherwise an empty handle goes on to the next call of V8, or what arrives is
another text, or another context has come in between.

    Converts       the value that an argument stands for
    Lookup         the reads that lead to the function of that name
    MeetsContract  the contract
    Servable       when it is kept
-/
import WeexBridge.Bridge.Calls

namespace WeexBridge

open Reentrant CodeUnits

/-! ## The contract -/

/-- `v` is the conversion of the argument, which takes the exchanges of `h`.  The strings
are those of Java, and `JSON` is that of the global object. -/
inductive Converts (global : Nat) : WXJSObject → History → Value → Prop where
  | double (bits : UInt64) : Converts global ⟨1, some (.double bits)⟩ [] (.number bits)
  | text {data} {text : HeapString} : IsTextData data text.units →
      Converts global ⟨2, data⟩ [] (.string text)
  | json {data json parse receiver v} {text : HeapString} : IsTextData data text.units →
      Converts global ⟨3, data⟩ (jsonHead "parse" global json parse ++
        [⟨.call .jsonMember parse receiver [.string text], some v⟩]) v

/-- The values are the conversions of the arguments, in order. -/
inductive ConvertsAll (global : Nat) : List WXJSObject → History → List Value → Prop where
  | nil : ConvertsAll global [] [] []
  | cons {arg jargs h h' v values} : Converts global arg h v →
      ConvertsAll global jargs h' values →
      ConvertsAll global (arg :: jargs) (h ++ h') (v :: values)

/-- The reads that lead from the global object to the function of that name, or to that of
the namespace of that name; it is called on `receiver`. -/
inductive Lookup (global : Nat) (function : List UInt16) :
    Option (List UInt16) → History → Value → Value → Prop where
  | plain {f} {key : HeapString} : key.units = function →
      Lookup global function none [⟨.get .target (.object global) key, some f⟩] (.object global) f
  | member {master f} {key key' : HeapString} : key'.units = function →
      Lookup global function (some key.units)
        [⟨.get .namespaceObject (.object global) key, some master⟩,
         ⟨.get .target master key', some f⟩] master f

/-- The calls of the function that `execJS` looks up. -/
def targetCalls : History → List (Value × Value × List Value)
  | [] => []
  | ⟨.call .target f receiver args, _⟩ :: h => (f, receiver, args) :: targetCalls h
  | _ :: h => targetCalls h

/-- How many exceptions are reported. -/
def reports : History → Nat
  | [] => 0
  | ⟨.java .reportJSException _ _, _⟩ :: h => reports h + 1
  | _ :: h => reports h

/-- An empty handle is used as receiver or as argument of a call.  Where V8 has a
function to call this is a crash. -/
def UsesEmpty (x : BridgeExchange) : Prop :=
  match x.question with
  | .callNonFunction _ _ receiver args => receiver = none ∨ none ∈ args
  | _ => False

/-- The argument has the Java type that its tag promises, and is not too long. -/
inductive Convertible : WXJSObject → Prop where
  | double (bits : UInt64) : Convertible ⟨1, some (.double bits)⟩
  | text {data units} : IsTextData data units → V8.Fits units → Convertible ⟨2, data⟩
  | json {data units} : IsTextData data units → V8.Fits units → Convertible ⟨3, data⟩

/-- An answer that V8 cannot go on with: an empty handle, or a small integer where
an object is read. -/
def Unusable (a : Handle) : Prop := ∀ v, a = some v → v.isSmi = true

/-- A read or a conversion on the way to the call that gives nothing to go on with. -/
def FailedRead : BridgeExchange → Prop
  | ⟨.get _ _ _, a⟩ => Unusable a
  | ⟨.call .jsonMember _ _ _, a⟩ => a = none
  | ⟨.callNonFunction .jsonMember _ _ _, _⟩ => True
  | _ => False

/-- What is found under the names is no function. -/
inductive NotFound (global : Nat) (jnamespace : Option (List UInt16)) (function : List UInt16) :
    History → Prop where
  | intro {h₁ h₂ h₃ receiver f args} : Lookup global function jnamespace h₂ receiver f →
      f.isFunction = false → NotFound global jnamespace function
        (h₁ ++ (h₂ ++ ⟨.callNonFunction .target f (some receiver) args, ()⟩ :: h₃))

/-- What a contract of `execJS` would be. -/
inductive MeetsContract (global : Nat) (jnamespace : Option (List UInt16))
    (function : List UInt16) (jargs : List WXJSObject) (h : History) (o : Outcome Returned) :
    Prop where
  /-- The function is called once, with all arguments. -/
  | called {h₁ h₂ h₃ values receiver f ret} :
      h = h₁ ++ (h₂ ++ ⟨.call .target f receiver values, ret⟩ :: h₃) →
      ConvertsAll global jargs h₁ values → Lookup global function jnamespace h₂ receiver f →
      targetCalls h = [(f, receiver, values)] → reports h = (if ret.isSome then 0 else 1) →
      (∀ x ∈ h, ¬ UsesEmpty x) → o = .returned (.jint ret.isSome) →
      MeetsContract global jnamespace function jargs h o
  /-- There is an argument or a function that cannot be had, and none is called. -/
  | refused : ((∃ arg ∈ jargs, ¬ Convertible arg) ∨
        (∃ name ∈ function :: jnamespace.toList, ¬ V8.Fits name) ∨ (∃ x ∈ h, FailedRead x) ∨
        NotFound global jnamespace function h) →
      targetCalls h = [] → reports h = 1 → (∀ x ∈ h, ¬ UsesEmpty x) →
      o = .returned (.jint false) → MeetsContract global jnamespace function jargs h o

/-! ## When it is kept -/

/-- The bridge can go on with the answer. -/
def Usable (x : BridgeExchange) : Prop := ¬ FailedRead x ∧ ¬ Unprintable x

/-- Where a property is read, and of what. -/
def Question.read : Question → Option (GetSite × Value)
  | .get site receiver _ => some (site, receiver)
  | _ => none

/-- What is read there is read of the global object. -/
def OnGlobal (global : Nat) (site : GetSite) (x : BridgeExchange) : Prop :=
  ∀ receiver, x.question.read = some (site, receiver) → receiver = .object global

/-- The first read on the way to the function. -/
def firstSite : Option (List UInt16) → GetSite
  | none => .target
  | some _ => .namespaceObject

/-- No text of the argument has U+0000. -/
def NoZero (arg : WXJSObject) : Prop := ∀ units, IsTextData arg.data units → (0 : UInt16) ∉ units

/-- A function is found. -/
def Finds (h : History) : Prop :=
  ∃ receiver key f, ⟨.get .target receiver key, some f⟩ ∈ h ∧ f.isFunction = true

/-- The arguments, the names and the answers are such that the contract is kept.  U+0000 in
an argument does no harm where no function is found. -/
structure Servable (global : Nat) (jnamespace : Option (List UInt16)) (function : List UInt16)
    (jargs : List WXJSObject) (h : History) : Prop where
  convertible : ∀ arg ∈ jargs, Convertible arg
  usable : ∀ x ∈ h, Usable x
  names : ∀ name ∈ function :: jnamespace.toList, V8.ComesWhole name
  onGlobal : ∀ x ∈ h, OnGlobal global (firstSite jnamespace) x
  texts : Finds h → (∀ arg ∈ jargs, NoZero arg) ∧ ∀ x ∈ h, OnGlobal global .jsonObject x

/-! ## The parts of a call -/

theorem targetCalls_append : ∀ h h' : History,
    targetCalls (h ++ h') = targetCalls h ++ targetCalls h'
  | [], _ => rfl
  | ⟨question, a⟩ :: h, h' => by
      have ih := targetCalls_append h h'
      cases question with
      | call site f receiver args =>
          cases site with
          | target => exact congrArg _ ih
          | _ => exact ih
      | _ => exact ih

theorem reports_append : ∀ h h' : History, reports (h ++ h') = reports h + reports h'
  | [], _ => (Nat.zero_add _).symm
  | ⟨question, a⟩ :: h, h' => by
      have ih := reports_append h h'
      cases question with
      | java method this params =>
          cases method with
          | reportJSException =>
              show reports (h ++ h') + 1 = reports h + 1 + reports h'
              rw [ih, Nat.add_right_comm]
          | _ => exact ih
      | _ => exact ih

/-- Exchanges that the contract does not look at. -/
structure Aside (h : History) : Prop where
  targetCalls : targetCalls h = []
  reports : reports h = 0
  notEmpty : ∀ x ∈ h, ¬ UsesEmpty x

theorem Aside.append {h h' : History} (hh : Aside h) (hh' : Aside h') : Aside (h ++ h') where
  targetCalls := by rw [targetCalls_append, hh.targetCalls, hh'.targetCalls]; rfl
  reports := by rw [reports_append, hh.reports, hh'.reports]
  notEmpty := by
    intro x hx
    rcases List.mem_append.mp hx with hx | hx
    · exact hh.notEmpty x hx
    · exact hh'.notEmpty x hx

theorem aside_nil : Aside [] := ⟨rfl, rfl, fun _ hx => absurd hx List.not_mem_nil⟩

/-- The site of a read or call. -/
def Question.site : Question → Option GetSite
  | .get site _ _ => some site
  | .call site _ _ _ => some site
  | .callNonFunction site _ _ _ => some site
  | _ => none

theorem onGlobal_of_site {global : Nat} {site : GetSite} {x : BridgeExchange}
    (hx : x.question.site ≠ some site) : OnGlobal global site x := by
  obtain ⟨question, a⟩ := x
  intro receiver hq
  cases question with
  | get => exact absurd (congrArg (Option.map Prod.fst) hq) hx
  | _ => cases hq

theorem usable_of_get {site : GetSite} {receiver v : Value} {key : HeapString}
    (hv : v.isSmi = false) : Usable ⟨.get site receiver key, some v⟩ := by
  refine ⟨fun h => ?_, id⟩
  cases hv.symm.trans (h v rfl)

/-! ### Arguments -/

theorem IsTextData.unique {data : Option JavaObject} {units units' : List UInt16}
    (hd : IsTextData data units) (hd' : IsTextData data units') : units = units' := by
  cases hd with
  | null =>
      cases hd'
      rfl
  | string units =>
      cases hd'
      rfl

theorem aside_jsonHead (name : String) (global : Nat) (json member : Value) :
    Aside (jsonHead name global json member) := by
  refine ⟨rfl, rfl, fun x hx => ?_⟩
  rcases List.mem_cons.mp hx with rfl | hx
  · exact id
  · rw [List.mem_singleton.mp hx]
    exact id

/-- What is known of an argument that has been converted. -/
structure ArgOk (arg : WXJSObject) (h : History) : Prop where
  convertible : Convertible arg
  usable : ∀ x ∈ h, Usable x
  aside : Aside h

theorem ArgPart.ok {arg : WXJSObject} {h : History} {obj : Handle} (ha : ArgPart arg h obj)
    (hobj : obj.isSome = true) : ArgOk arg h := by
  have hnil : ∀ x ∈ ([] : History), Usable x := fun _ hx => absurd hx List.not_mem_nil
  cases ha with
  | double bits => exact ⟨Convertible.double bits, hnil, aside_nil⟩
  | text hdata hmakes =>
      rw [Option.isSome_map] at hobj
      exact ⟨Convertible.text hdata (hmakes.fits_iff.mp hobj), hnil, aside_nil⟩
  | json hdata hmakes hjson hparse _ =>
      refine ⟨Convertible.json hdata (hmakes.fits_iff.mp rfl),
        List.forall_mem_append.mpr ⟨fun x hx => ?_, fun x hx => ?_⟩,
        (aside_jsonHead _ _ _ _).append ⟨rfl, rfl, fun x hx => ?_⟩⟩
      · rcases List.mem_cons.mp hx with rfl | hx
        · exact usable_of_get hjson
        · rw [List.mem_singleton.mp hx]
          exact usable_of_get hparse
      · rw [List.mem_singleton.mp hx]
        refine ⟨fun hnone => ?_, id⟩
        rw [show _ = _ from hnone] at hobj
        cases hobj
      · rw [List.mem_singleton.mp hx]
        exact id
  | noFunction => cases hobj
  | other _ _ _ => cases hobj

theorem ArgPart.isSome {arg : WXJSObject} {h : History} {obj : Handle} (ha : ArgPart arg h obj)
    (harg : Convertible arg) (husable : ∀ x ∈ h, Usable x) : obj.isSome = true := by
  cases ha with
  | double bits => rfl
  | text hdata hmakes =>
      rw [Option.isSome_map]
      cases harg with
      | text hdata' hfits => exact hmakes.fits_iff.mpr (hdata.unique hdata' ▸ hfits)
  | json _ _ _ _ _ =>
      have hlast := (husable _ (List.mem_append_right _ List.mem_cons_self)).1
      exact Option.isSome_iff_ne_none.mpr hlast
  | noFunction =>
      exact absurd trivial (husable _ (List.mem_append_right _ List.mem_cons_self)).1
  | other h₁ h₂ h₃ =>
      cases harg with
      | double _ => exact absurd rfl h₁
      | text _ _ => exact absurd rfl h₂
      | json _ _ => exact absurd rfl h₃

/-- How many exchanges an argument takes. -/
def exchanges (arg : WXJSObject) : Nat := if arg.type = 3 then 3 else 0

theorem ArgPart.length_eq {arg : WXJSObject} {h : History} {obj : Handle}
    (ha : ArgPart arg h obj) : h.length = exchanges arg := by
  cases ha with
  | other _ _ h₃ => exact (if_neg h₃).symm
  | _ => rfl

theorem Converts.length_eq {global : Nat} {arg : WXJSObject} {h : History} {v : Value}
    (hc : Converts global arg h v) : h.length = exchanges arg := by
  cases hc with
  | _ => rfl

theorem Converts.onGlobal {global : Nat} {arg : WXJSObject} {h : History} {v : Value}
    (hc : Converts global arg h v) : ∀ x ∈ h, OnGlobal global .jsonObject x := by
  cases hc with
  | double bits => exact fun _ hx => absurd hx List.not_mem_nil
  | text _ => exact fun _ hx => absurd hx List.not_mem_nil
  | json _ =>
      intro x hx
      rcases List.mem_cons.mp hx with rfl | hx
      · intro receiver hq
        cases hq
        rfl
      · refine onGlobal_of_site ?_
        rcases List.mem_cons.mp hx with rfl | hx
        · exact nofun
        · rw [List.mem_singleton.mp hx]
          exact nofun

/-- The value is the conversion of the argument, if the text of the argument came whole and
`JSON` was read where it should be. -/
theorem ArgPart.converts_iff {global : Nat} {arg : WXJSObject} {h : History} {obj : Handle}
    {v : Value} (ha : ArgPart arg h obj) (hobj : obj = some v) : Converts global arg h v ↔
      NoZero arg ∧ ∀ x ∈ h, OnGlobal global .jsonObject x := by
  cases ha with
  | double bits =>
      cases hobj
      exact iff_of_true (Converts.double bits) ⟨nofun, fun _ hx => absurd hx List.not_mem_nil⟩
  | @text data units text hdata hmakes =>
      cases text with
      | none => cases hobj
      | some text =>
          cases hobj
          constructor
          · intro hc
            refine ⟨fun units' hdata' => ?_, hc.onGlobal⟩
            cases hc with
            | text hdata'' =>
                rw [← hdata.unique hdata']
                exact hmakes.units_eq_iff.mp (hdata''.unique hdata)
          · intro h
            refine Converts.text ?_
            rwa [hmakes.units_eq_iff.mpr (h.1 units hdata)]
  | @json data units global' json parse receiver text a hdata hmakes _ _ _ =>
      constructor
      · intro hc
        refine ⟨fun units' hdata' => ?_, hc.onGlobal⟩
        rw [← hdata.unique hdata']
        generalize hh : jsonHead "parse" global' json parse ++ _ = h at hc
        cases hc with
        | json hdata'' =>
            cases hh
            exact hmakes.units_eq_iff.mp (hdata''.unique hdata)
      · intro h
        obtain ⟨hzero, hglobal⟩ := h
        cases hglobal _ List.mem_cons_self _ rfl
        cases hobj
        refine Converts.json ?_
        rwa [hmakes.units_eq_iff.mpr (hzero units hdata)]
  | noFunction => cases hobj
  | other _ _ _ => cases hobj

theorem ArgPart.site {arg : WXJSObject} {h : History} {obj : Handle} (ha : ArgPart arg h obj) :
    ∀ x ∈ h, x.question.site = some .jsonObject ∨ x.question.site = some .jsonMember := by
  have hjson : ∀ {global json parse x}, x.question.site = some .jsonMember →
      ∀ y ∈ jsonHead "parse" global json parse ++ [x],
        y.question.site = some .jsonObject ∨ y.question.site = some .jsonMember := by
    intro global json parse x hx y hy
    rcases List.mem_cons.mp hy with rfl | hy
    · exact Or.inl rfl
    · rcases List.mem_cons.mp hy with rfl | hy
      · exact Or.inr rfl
      · rw [List.mem_singleton.mp hy]
        exact Or.inr hx
  cases ha with
  | json _ _ _ _ _ => exact hjson rfl
  | noFunction => exact hjson rfl
  | _ => exact fun _ hx => absurd hx List.not_mem_nil

theorem ArgsPart.site {jargs : List WXJSObject} {h : History} {objs : List Handle}
    (ha : ArgsPart jargs h objs) :
    ∀ x ∈ h, x.question.site = some .jsonObject ∨ x.question.site = some .jsonMember := by
  induction ha with
  | nil => exact fun _ hx => absurd hx List.not_mem_nil
  | cons harg _ ih => exact List.forall_mem_append.mpr ⟨harg.site, ih⟩

/-- What is known of the arguments when all have been converted. -/
structure ArgsOk (jargs : List WXJSObject) (h : History) : Prop where
  convertible : ∀ arg ∈ jargs, Convertible arg
  usable : ∀ x ∈ h, Usable x
  aside : Aside h

theorem ArgsPart.ok {jargs : List WXJSObject} {h : History} {objs : List Handle}
    (ha : ArgsPart jargs h objs) (hobjs : none ∉ objs) : ArgsOk jargs h := by
  induction ha with
  | nil =>
      exact ⟨fun _ h => absurd h List.not_mem_nil, fun _ h => absurd h List.not_mem_nil,
        aside_nil⟩
  | @cons arg jargs h h' obj objs harg _ ih =>
      have hargs := ih fun hm => hobjs (List.mem_cons_of_mem _ hm)
      have hobj : obj.isSome = true := by
        refine Option.isSome_iff_ne_none.mpr fun hnone => hobjs ?_
        rw [hnone]
        exact List.mem_cons_self
      exact ⟨List.forall_mem_cons.mpr ⟨(harg.ok hobj).convertible, hargs.convertible⟩,
        List.forall_mem_append.mpr ⟨(harg.ok hobj).usable, hargs.usable⟩,
        (harg.ok hobj).aside.append hargs.aside⟩

theorem ArgsPart.not_mem {jargs : List WXJSObject} {h : History} {objs : List Handle}
    (ha : ArgsPart jargs h objs) (hargs : ∀ arg ∈ jargs, Convertible arg)
    (husable : ∀ x ∈ h, Usable x) : none ∉ objs := by
  induction ha with
  | nil => exact List.not_mem_nil
  | @cons arg jargs h h' obj objs harg _ ih =>
      obtain ⟨husable, husable'⟩ := List.forall_mem_append.mp husable
      obtain ⟨hconv, hconv'⟩ := List.forall_mem_cons.mp hargs
      intro hm
      rcases List.mem_cons.mp hm with hnone | hm
      · have hsome := harg.isSome hconv husable
        rw [← hnone] at hsome
        cases hsome
      · exact ih hconv' husable' hm

theorem exists_map_some : ∀ {objs : List Handle}, none ∉ objs →
    ∃ values : List Value, objs = values.map some
  | [], _ => ⟨[], rfl⟩
  | none :: objs, h => absurd List.mem_cons_self h
  | some v :: objs, h => by
      obtain ⟨values, rfl⟩ := exists_map_some fun hm => h (List.mem_cons_of_mem _ hm)
      exact ⟨v :: values, rfl⟩

/-- The same for all arguments: each takes as many exchanges as it should. -/
theorem ArgsPart.convertsAll_iff {global : Nat} {jargs : List WXJSObject} {h : History}
    {objs : List Handle} (ha : ArgsPart jargs h objs) : ∀ {values : List Value},
    objs = values.map some → (ConvertsAll global jargs h values ↔
      (∀ arg ∈ jargs, NoZero arg) ∧ ∀ x ∈ h, OnGlobal global .jsonObject x) := by
  induction ha with
  | nil =>
      intro values hvalues
      cases values with
      | nil =>
          exact iff_of_true ConvertsAll.nil
            ⟨fun _ h => absurd h List.not_mem_nil, fun _ h => absurd h List.not_mem_nil⟩
      | cons v values => cases hvalues
  | @cons arg jargs h h' obj objs harg _ ih =>
      intro values hvalues
      cases values with
      | nil => cases hvalues
      | cons v values =>
          obtain ⟨hobj, hobjs⟩ := List.cons.inj hvalues
          rw [List.forall_mem_cons, List.forall_mem_append]
          constructor
          · intro hc
            generalize hk : h ++ h' = k at hc
            cases hc with
            | cons hconv hconvs =>
                obtain ⟨rfl, rfl⟩ := List.append_inj hk (harg.length_eq.trans hconv.length_eq.symm)
                obtain ⟨hzero, hglobal⟩ := (harg.converts_iff hobj).mp hconv
                obtain ⟨hzeros, hglobals⟩ := (ih hobjs).mp hconvs
                exact ⟨⟨hzero, hzeros⟩, hglobal, hglobals⟩
          · rintro ⟨⟨hzero, hzeros⟩, hglobal, hglobals⟩
            exact ConvertsAll.cons ((harg.converts_iff hobj).mpr ⟨hzero, hglobal⟩)
              ((ih hobjs).mpr ⟨hzeros, hglobals⟩)

/-! ### The call -/

section
variable {global : Nat} {function : List UInt16} {jnamespace : Option (List UInt16)}
  {h : History} {receiver f : Value}

/-- The reads, and what each gives. -/
theorem LookupPart.gets (hl : LookupPart function jnamespace h receiver f) :
    ∀ x ∈ h, ∃ site v key a, x = ⟨.get site v key, some a⟩ ∧ a.isSmi = false ∧
      (site = .namespaceObject ∨ site = .target ∧ a = f) := by
  cases hl with
  | global _ hf =>
      intro x hx
      rw [List.mem_singleton.mp hx]
      exact ⟨_, _, _, _, rfl, hf, Or.inr ⟨rfl, rfl⟩⟩
  | member _ _ hmaster hf =>
      intro x hx
      rcases List.mem_cons.mp hx with rfl | hx
      · exact ⟨_, _, _, _, rfl, hmaster, Or.inl rfl⟩
      · rw [List.mem_singleton.mp hx]
        exact ⟨_, _, _, _, rfl, hf, Or.inr ⟨rfl, rfl⟩⟩

theorem LookupPart.found (hl : LookupPart function jnamespace h receiver f) :
    ∃ v key, ⟨.get .target v key, some f⟩ ∈ h := by
  cases hl with
  | global _ _ => exact ⟨_, _, List.mem_cons_self⟩
  | member _ _ _ _ => exact ⟨_, _, List.mem_cons_of_mem _ List.mem_cons_self⟩

theorem LookupPart.usable (hl : LookupPart function jnamespace h receiver f) :
    ∀ x ∈ h, Usable x := by
  intro x hx
  obtain ⟨site, v, key, a, rfl, ha, -⟩ := hl.gets x hx
  exact usable_of_get ha

theorem LookupPart.aside (hl : LookupPart function jnamespace h receiver f) : Aside h := by
  refine ⟨?_, ?_, fun x hx => ?_⟩
  · cases hl with
    | _ => rfl
  · cases hl with
    | _ => rfl
  · obtain ⟨site, v, key, a, rfl, -⟩ := hl.gets x hx
    exact id

theorem LookupPart.fits (hl : LookupPart function jnamespace h receiver f) :
    ∀ name ∈ function :: jnamespace.toList, V8.Fits name := by
  cases hl with
  | global hkey _ => exact List.forall_mem_cons.mpr ⟨hkey.fits_iff.mp rfl, nofun⟩
  | member hkey hkey' _ _ =>
      exact List.forall_mem_cons.mpr ⟨hkey'.fits_iff.mp rfl,
        List.forall_mem_cons.mpr ⟨hkey.fits_iff.mp rfl, nofun⟩⟩

theorem LookupPart.length_eq (hl : LookupPart function jnamespace h receiver f) :
    h.length = jnamespace.toList.length + 1 := by
  cases hl with
  | _ => rfl

theorem Lookup.length_eq (hl : Lookup global function jnamespace h receiver f) :
    h.length = jnamespace.toList.length + 1 := by
  cases hl with
  | _ => rfl

/-- The function is looked up as it should be, if the names came whole and the first read
was on the global object. -/
theorem LookupPart.lookup_iff (hl : LookupPart function jnamespace h receiver f) :
    Lookup global function jnamespace h receiver f ↔
      (∀ name ∈ function :: jnamespace.toList, V8.ComesWhole name) ∧
        ∀ x ∈ h, OnGlobal global (firstSite jnamespace) x := by
  have hfits := hl.fits
  simp only [V8.comesWhole_iff]
  cases hl with
  | @global global' f key hkey _ =>
      constructor
      · intro hlookup
        cases hlookup with
        | plain hunits =>
            refine ⟨List.forall_mem_cons.mpr ⟨⟨hkey.units_eq_iff.mp hunits,
              hfits _ List.mem_cons_self⟩, nofun⟩, List.forall_mem_singleton.mpr ?_⟩
            intro receiver hq
            cases hq
            rfl
      · rintro ⟨hnames, hglobal⟩
        cases hglobal _ List.mem_cons_self _ rfl
        exact Lookup.plain (hkey.units_eq_iff.mpr (hnames _ List.mem_cons_self).1)
  | @member units global' master f key key' hkey hkey' _ _ =>
      constructor
      · intro hlookup
        have hunits : key.units = units ∧ key'.units = function ∧ global' = global := by
          cases hlookup with
          | member hunits => exact ⟨rfl, hunits, rfl⟩
        obtain ⟨hunits, hunits', rfl⟩ := hunits
        refine ⟨List.forall_mem_cons.mpr ⟨⟨hkey'.units_eq_iff.mp hunits',
          hfits _ List.mem_cons_self⟩, List.forall_mem_singleton.mpr
            ⟨hkey.units_eq_iff.mp hunits, hfits _ (List.mem_cons_of_mem _ List.mem_cons_self)⟩⟩,
          List.forall_mem_cons.mpr ⟨?_, List.forall_mem_singleton.mpr (onGlobal_of_site nofun)⟩⟩
        intro receiver hq
        cases hq
        rfl
      · rintro ⟨hnames, hglobal⟩
        cases hglobal _ List.mem_cons_self _ rfl
        have hunits := hkey.units_eq_iff.mpr
          (hnames _ (List.mem_cons_of_mem _ List.mem_cons_self)).1
        subst hunits
        exact Lookup.member (hkey'.units_eq_iff.mpr (hnames _ List.mem_cons_self).1)

end

/-! ### The report -/

theorem site_of_isReading {question : Question} (hq : question.IsReading) :
    question.site = none := by
  cases question with
  | get => cases hq
  | call => cases hq
  | callNonFunction => cases hq
  | _ => rfl

theorem usable_of_isReading {x : BridgeExchange} (hx : x.question.IsReading)
    (hprint : ¬ Unprintable x) : Usable x := by
  refine ⟨?_, hprint⟩
  obtain ⟨question, a⟩ := x
  cases question with
  | get => cases hx
  | call => cases hx
  | callNonFunction => cases hx
  | _ => exact id

theorem ReadsReport.aside : ∀ {h : History}, ReadsReport h → Aside h
  | [], _ => aside_nil
  | ⟨question, a⟩ :: h, hr => by
      have hone : Aside [⟨question, a⟩] := by
        have hq := (hr _ List.mem_cons_self).1
        cases question with
        | call => cases hq
        | callNonFunction => cases hq
        | java => cases hq
        | _ =>
            refine ⟨rfl, rfl, fun x hx => ?_⟩
            rw [List.mem_singleton.mp hx]
            exact id
      exact hone.append (ReadsReport.aside fun x hx => hr x (List.mem_cons_of_mem _ hx))

/-- What is known of a report that has been made, or was not needed. -/
structure ReportOk (ret : Handle) (h : History) : Prop where
  targetCalls : targetCalls h = []
  reports : reports h = if ret.isSome then 0 else 1
  usable : ∀ x ∈ h, Usable x
  notEmpty : ∀ x ∈ h, ¬ UsesEmpty x
  site : ∀ x ∈ h, x.question.site = none

theorem ReportPart.ok {ret : Handle} {h : History} (hr : ReportPart ret h) : ReportOk ret h := by
  cases hr with
  | quiet =>
      exact ⟨rfl, rfl, fun _ hx => absurd hx List.not_mem_nil,
        fun _ hx => absurd hx List.not_mem_nil, fun _ hx => absurd hx List.not_mem_nil⟩
  | reported hread =>
      refine ⟨?_, ?_, List.forall_mem_append.mpr ⟨fun x hx => ?_, ?_⟩,
        List.forall_mem_append.mpr ⟨hread.aside.notEmpty, ?_⟩,
        List.forall_mem_append.mpr ⟨fun x hx => ?_, ?_⟩⟩
      · rw [targetCalls_append, hread.aside.targetCalls]
        rfl
      · rw [reports_append, hread.aside.reports]
        rfl
      · exact usable_of_isReading (hread x hx).1 (hread x hx).2
      · exact List.forall_mem_singleton.mpr ⟨id, id⟩
      · exact List.forall_mem_singleton.mpr id
      · exact site_of_isReading (hread x hx).1
      · exact List.forall_mem_singleton.mpr rfl

/-! ## A call that returns -/

/-- The exchange in which the function is called, or refused. -/
def IsTargetCall (x : BridgeExchange) : Prop :=
  match x.question with
  | .call .target _ _ _ => True
  | .callNonFunction .target _ _ _ => True
  | _ => False

theorem not_isTargetCall_of_site {x : BridgeExchange} (hx : x.question.site ≠ some .target) :
    ¬ IsTargetCall x := by
  obtain ⟨question, a⟩ := x
  intro h
  cases question with
  | call site _ _ _ =>
      cases site with
      | target => exact hx rfl
      | _ => exact h
  | callNonFunction site _ _ _ =>
      cases site with
      | target => exact hx rfl
      | _ => exact h
  | _ => exact h

/-- A history with the call `y`, behind the arguments and the reads. -/
structure Splits (jnamespace : Option (List UInt16)) (function : List UInt16)
    (jargs : List WXJSObject) (objs : List Handle) (receiver f : Value) (ret : Handle)
    (h₁ h₂ : History) (y : BridgeExchange) (h₃ : History) : Prop where
  args : ArgsPart jargs h₁ objs
  lookup : LookupPart function jnamespace h₂ receiver f
  call : IsTargetCall y
  report : ReportPart ret h₃

namespace Splits

variable {global : Nat} {jnamespace : Option (List UInt16)} {function : List UInt16}
  {jargs : List WXJSObject} {objs : List Handle} {receiver f : Value} {ret : Handle}
  {h₁ h₂ h₃ : History} {y : BridgeExchange}
  (hs : Splits jnamespace function jargs objs receiver f ret h₁ h₂ y h₃)
include hs

theorem site_args : ∀ x ∈ h₁, x.question.site ≠ some .target ∧
    x.question.site ≠ some .namespaceObject := by
  intro x hx
  rcases hs.args.site x hx with h | h
  · rw [h]
    exact ⟨nofun, nofun⟩
  · rw [h]
    exact ⟨nofun, nofun⟩

theorem site_report : ∀ x ∈ h₃, ∀ site, x.question.site ≠ some site := by
  intro x hx site
  rw [hs.report.ok.site x hx]
  exact nofun

/-- There is no other such call. -/
theorem unique {g₁ g₂ g₃ : History} {x : BridgeExchange}
    (heq : h₁ ++ (h₂ ++ y :: h₃) = g₁ ++ (g₂ ++ x :: g₃)) (hx : IsTargetCall x)
    (hlength : g₂.length = h₂.length) : h₁ = g₁ ∧ h₂ = g₂ ∧ y = x := by
  have hbefore : x ∉ h₁ ++ h₂ := by
    intro hm
    rcases List.mem_append.mp hm with hm | hm
    · exact not_isTargetCall_of_site (hs.site_args x hm).1 hx
    · obtain ⟨site, v, key, a, rfl, -⟩ := hs.lookup.gets x hm
      exact hx
  have hbehind : x ∉ h₃ := fun hm => not_isTargetCall_of_site (hs.site_report x hm _) hx
  rw [← List.append_assoc, ← List.append_assoc,
    List.append_cons_inj_of_notMem hbefore hbehind] at heq
  obtain ⟨hfront, hcall, -⟩ := heq
  obtain ⟨rfl, rfl⟩ := List.append_inj' hfront hlength.symm
  exact ⟨rfl, rfl, hcall⟩

theorem onGlobal_call (site : GetSite) : OnGlobal global site y := by
  obtain ⟨question, a⟩ := y
  intro receiver hq
  cases question with
  | get => exact hs.call.elim
  | _ => cases hq

/-- Only the reads of the lookup matter for the one. -/
theorem onGlobal_first :
    (∀ x ∈ h₁ ++ (h₂ ++ y :: h₃), OnGlobal global (firstSite jnamespace) x) ↔
      ∀ x ∈ h₂, OnGlobal global (firstSite jnamespace) x := by
  refine ⟨fun h x hx => h x (List.mem_append_right _ (List.mem_append_left _ hx)), fun h => ?_⟩
  refine List.forall_mem_append.mpr ⟨fun x hx => onGlobal_of_site ?_,
    List.forall_mem_append.mpr ⟨h, List.forall_mem_cons.mpr ⟨hs.onGlobal_call _,
      fun x hx => onGlobal_of_site (hs.site_report x hx _)⟩⟩⟩
  cases jnamespace with
  | none => exact (hs.site_args x hx).1
  | some units => exact (hs.site_args x hx).2

/-- Only those of the arguments for the other. -/
theorem onGlobal_json : (∀ x ∈ h₁ ++ (h₂ ++ y :: h₃), OnGlobal global .jsonObject x) ↔
    ∀ x ∈ h₁, OnGlobal global .jsonObject x := by
  refine ⟨fun h x hx => h x (List.mem_append_left _ hx), fun h => ?_⟩
  refine List.forall_mem_append.mpr ⟨h, List.forall_mem_append.mpr ⟨fun x hx => ?_,
    List.forall_mem_cons.mpr ⟨hs.onGlobal_call _,
      fun x hx => onGlobal_of_site (hs.site_report x hx _)⟩⟩⟩
  obtain ⟨site, v, key, a, rfl, -, rfl | ⟨rfl, -⟩⟩ := hs.lookup.gets x hx
  · exact onGlobal_of_site nofun
  · exact onGlobal_of_site nofun

theorem finds_iff : Finds (h₁ ++ (h₂ ++ y :: h₃)) ↔ f.isFunction = true := by
  constructor
  · rintro ⟨v, key, f', hm, hf'⟩
    rcases List.mem_append.mp hm with hm | hm
    · exact absurd rfl (hs.site_args _ hm).1
    · rcases List.mem_append.mp hm with hm | hm
      · obtain ⟨site, v', key', a, heq, -, hsite⟩ := hs.lookup.gets _ hm
        cases heq
        rcases hsite with hsite | ⟨-, rfl⟩
        · cases hsite
        · exact hf'
      · rcases List.mem_cons.mp hm with rfl | hm
        · exact hs.call.elim
        · exact absurd rfl (hs.site_report _ hm .target)
  · intro hf
    obtain ⟨v, key, hm⟩ := hs.lookup.found
    exact ⟨v, key, f, List.mem_append_right _ (List.mem_append_left _ hm), hf⟩

/-- Where no handle was empty, the rest is a matter of the texts. -/
theorem servable_iff (hobjs : none ∉ objs) (hy : Usable y) :
    Servable global jnamespace function jargs (h₁ ++ (h₂ ++ y :: h₃)) ↔
      Lookup global function jnamespace h₂ receiver f ∧ (f.isFunction = true →
        ∀ {values : List Value}, objs = values.map some → ConvertsAll global jargs h₁ values) := by
  rw [hs.lookup.lookup_iff]
  constructor
  · intro hserve
    refine ⟨⟨hserve.names, hs.onGlobal_first.mp hserve.onGlobal⟩, fun hf values hvalues => ?_⟩
    obtain ⟨hzero, hjson⟩ := hserve.texts (hs.finds_iff.mpr hf)
    exact (hs.args.convertsAll_iff hvalues).mpr ⟨hzero, hs.onGlobal_json.mp hjson⟩
  · rintro ⟨⟨hnames, hglobal⟩, htexts⟩
    obtain ⟨values, hvalues⟩ := exists_map_some hobjs
    have hok := hs.args.ok hobjs
    exact {
      convertible := hok.convertible
      usable := List.forall_mem_append.mpr ⟨hok.usable, List.forall_mem_append.mpr
        ⟨hs.lookup.usable, List.forall_mem_cons.mpr ⟨hy, hs.report.ok.usable⟩⟩⟩
      names := hnames
      onGlobal := hs.onGlobal_first.mpr hglobal
      texts := by
        intro hfinds
        obtain ⟨hzero, hjson⟩ :=
          (hs.args.convertsAll_iff hvalues).mp (htexts (hs.finds_iff.mp hfinds) hvalues)
        exact ⟨hzero, hs.onGlobal_json.mpr hjson⟩ }

end Splits

theorem not_mem_map_some (values : List Value) : none ∉ values.map some := by
  intro hm
  obtain ⟨v, -, hv⟩ := List.mem_map.mp hm
  cases hv

section
variable {global : Nat} {jnamespace : Option (List UInt16)} {function : List UInt16}
  {jargs : List WXJSObject} {h₁ h₂ h₃ : History} {receiver f : Value}

/-- A function that is called. -/
theorem Splits.called_iff {values : List Value} {ret : Handle}
    (hs : Splits jnamespace function jargs (values.map some) receiver f ret h₁ h₂
      ⟨.call .target f receiver values, ret⟩ h₃) (hf : f.isFunction = true) :
    MeetsContract global jnamespace function jargs
        (h₁ ++ (h₂ ++ ⟨.call .target f receiver values, ret⟩ :: h₃))
        (.returned (.jint ret.isSome)) ↔
      Servable global jnamespace function jargs
        (h₁ ++ (h₂ ++ ⟨.call .target f receiver values, ret⟩ :: h₃)) := by
  have hobjs := not_mem_map_some values
  have hargs := (hs.args.ok hobjs).aside
  have hreport := hs.report.ok
  have hcalls : targetCalls (h₁ ++ (h₂ ++ ⟨.call .target f receiver values, ret⟩ :: h₃)) =
      [(f, receiver, values)] := by
    rw [targetCalls_append, targetCalls_append, hargs.targetCalls, hs.lookup.aside.targetCalls]
    exact congrArg (List.cons _) hreport.targetCalls
  rw [hs.servable_iff hobjs ⟨id, id⟩]
  constructor
  · intro hm
    cases hm with
    | called heq hconv hlookup _ _ _ _ =>
        obtain ⟨rfl, rfl, hy⟩ :=
          hs.unique heq trivial (hlookup.length_eq.trans hs.lookup.length_eq.symm)
        cases hy
        refine ⟨hlookup, fun _ values' hvalues => ?_⟩
        rwa [← List.map_injective_iff.mpr (Option.some_injective _) hvalues]
    | refused _ hnil _ _ _ => cases hcalls.symm.trans hnil
  · rintro ⟨hlookup, hconv⟩
    refine MeetsContract.called rfl (hconv hf rfl) hlookup hcalls ?_ ?_ rfl
    · rw [reports_append, reports_append, hargs.reports, hs.lookup.aside.reports]
      exact (Nat.zero_add _).trans ((Nat.zero_add _).trans hreport.reports)
    · exact List.forall_mem_append.mpr ⟨hargs.notEmpty, List.forall_mem_append.mpr
        ⟨hs.lookup.aside.notEmpty, List.forall_mem_cons.mpr ⟨id, hreport.notEmpty⟩⟩⟩

/-- Something that is no function. -/
theorem Splits.refused_iff {objs : List Handle}
    (hs : Splits jnamespace function jargs objs receiver f none h₁ h₂
      ⟨.callNonFunction .target f (some receiver) objs, ()⟩ h₃) (hf : f.isFunction = false)
    (hobjs : none ∉ objs) :
    MeetsContract global jnamespace function jargs
        (h₁ ++ (h₂ ++ ⟨.callNonFunction .target f (some receiver) objs, ()⟩ :: h₃))
        (.returned (.jint false)) ↔
      Servable global jnamespace function jargs
        (h₁ ++ (h₂ ++ ⟨.callNonFunction .target f (some receiver) objs, ()⟩ :: h₃)) := by
  have hargs := hs.args.ok hobjs
  have hreport := hs.report.ok
  have hcalls : targetCalls
      (h₁ ++ (h₂ ++ ⟨.callNonFunction .target f (some receiver) objs, ()⟩ :: h₃)) = [] := by
    rw [targetCalls_append, targetCalls_append, hargs.aside.targetCalls,
      hs.lookup.aside.targetCalls]
    exact hreport.targetCalls
  have hserve := @Splits.servable_iff global _ _ _ _ _ _ _ _ _ _ _ hs hobjs ⟨id, id⟩
  rw [hserve]
  constructor
  · intro hm
    refine ⟨?_, fun hf' => absurd (hf.symm.trans hf') Bool.false_ne_true⟩
    generalize heq : h₁ ++ (h₂ ++ _ :: h₃) = h at hm hcalls
    cases hm with
    | called _ _ _ htarget _ _ _ => cases hcalls.symm.trans htarget
    | refused hcause _ _ _ _ =>
        have husable : ∀ x ∈ h, Usable x := heq ▸ List.forall_mem_append.mpr ⟨hargs.usable,
          List.forall_mem_append.mpr ⟨hs.lookup.usable, List.forall_mem_cons.mpr
            ⟨⟨id, id⟩, hreport.usable⟩⟩⟩
        rcases hcause with ⟨arg, harg, hno⟩ | ⟨name, hname, hno⟩ | ⟨x, hx, hfailed⟩ | hfound
        · exact absurd (hargs.convertible arg harg) hno
        · exact absurd (hs.lookup.fits name hname) hno
        · exact absurd hfailed (husable x hx).1
        · obtain ⟨hlookup, -⟩ := hfound
          obtain ⟨rfl, rfl, hy⟩ :=
            hs.unique heq trivial (hlookup.length_eq.trans hs.lookup.length_eq.symm)
          cases hy
          exact hlookup
  · rintro ⟨hlookup, -⟩
    refine MeetsContract.refused (Or.inr (Or.inr (Or.inr ⟨hlookup, hf⟩))) hcalls ?_ ?_ rfl
    · rw [reports_append, reports_append, hargs.aside.reports, hs.lookup.aside.reports]
      exact (Nat.zero_add _).trans ((Nat.zero_add _).trans hreport.reports)
    · refine List.forall_mem_append.mpr ⟨hargs.aside.notEmpty, List.forall_mem_append.mpr
        ⟨hs.lookup.aside.notEmpty, List.forall_mem_cons.mpr ⟨?_, hreport.notEmpty⟩⟩⟩
      rintro (hnone | hm)
      · cases hnone
      · exact hobjs hm

end

section
variable {global : Nat} {jnamespace : Option (List UInt16)} {function : List UInt16}
  {jargs : List WXJSObject} {h : History}

theorem MeetsContract.isReturned {o : Outcome Returned}
    (hm : MeetsContract global jnamespace function jargs h o) : o.isReturned = true := by
  cases hm with
  | called _ _ _ _ _ _ ho => exact ho ▸ rfl
  | refused _ _ _ _ ho => exact ho ▸ rfl

theorem MeetsContract.notEmpty {o : Outcome Returned}
    (hm : MeetsContract global jnamespace function jargs h o) : ∀ x ∈ h, ¬ UsesEmpty x := by
  cases hm with
  | called _ _ _ _ _ hno _ => exact hno
  | refused _ _ _ hno _ => exact hno

/-- A call that returns keeps the contract exactly when it is servable. -/
theorem ExecJSRun.meets_iff {b : Bool} (hr : ExecJSRun jnamespace function jargs h b) :
    MeetsContract global jnamespace function jargs h (.returned (.jint b)) ↔
      Servable global jnamespace function jargs h := by
  obtain @⟨h₁, h₂, h₃, objs, ret, hargs, hcall, hreport⟩ := hr
  cases hcall with
  | @called h₂ receiver f values ret hl hf hvalues =>
      subst hvalues
      rw [List.append_assoc]
      exact Splits.called_iff ⟨hargs, hl, trivial, hreport⟩ hf
  | @refused h₂ receiver f hl hf =>
      rw [List.append_assoc]
      by_cases hobjs : none ∈ objs
      · refine iff_of_false (fun hm => ?_) fun hserve => ?_
        · exact hm.notEmpty _ (List.mem_append_right _ (List.mem_append_right _
            List.mem_cons_self)) (Or.inr hobjs)
        · exact hargs.not_mem hserve.convertible
            (List.forall_mem_append.mp hserve.usable).1 hobjs
      · exact Splits.refused_iff ⟨hargs, hl, trivial, hreport⟩ hf hobjs

end

end WeexBridge
