/-
# What `execJS` does

An invocation of `execJS` as its history shows it: the conversions of the arguments, the
reads that lead to the function and its call, and the report of an exception where there
is no result.

    ArgPart     a converted argument, `none` where the handle is empty
    LookupPart  the reads that lead to the function
    CallPart    the call, or the refusal of something that is no function
    ReportPart  the report of an exception
-/
import WeexBridge.Bridge.Marshalling

namespace WeexBridge

open Reentrant CodeUnits

/-! ## The parts of a call -/

/-- The data of a type-2 or type-3 argument, as a string. -/
inductive IsTextData : Option JavaObject → List UInt16 → Prop where
  | null : IsTextData none []
  | string (units : List UInt16) : IsTextData (some (.string units)) units

/-- What `String::New` makes of a Java string; a string that is too long is refused. -/
def DecodesTo (units : List UInt16) (text : Option HeapString) : Prop :=
  V8.Makes (modifiedUtf8 units) (V8.decodedUnits units) (text.map HeapString.tree)

theorem DecodesTo.units_eq_iff {units : List UInt16} {text : HeapString}
    (h : DecodesTo units (some text)) : text.units = units ↔ (0 : UInt16) ∉ units := by
  rw [HeapString.units, (h.made _ rfl).2]
  exact V8.decodedUnits_eq_self_iff units

theorem DecodesTo.fits_iff {units : List UInt16} {text : Option HeapString}
    (h : DecodesTo units text) : text.isSome = true ↔ V8.Fits units := by
  rw [← V8.Makes.fits_iff h, Option.isSome_map]

/-- A converted argument: `none` where the handle is empty. -/
inductive ArgPart : WXJSObject → History → Handle → Prop where
  | double (bits : UInt64) : ArgPart ⟨1, some (.double bits)⟩ [] (some (.number bits))
  | text {data units text} : IsTextData data units → DecodesTo units text →
      ArgPart ⟨2, data⟩ [] (text.map .string)
  | json {data units global json parse receiver text a} : IsTextData data units →
      DecodesTo units (some text) → json.isSmi = false → parse.isSmi = false →
      parse.isFunction = true → ArgPart ⟨3, data⟩ (jsonHead "parse" global json parse ++
        [⟨.call .jsonMember parse receiver [.string text], a⟩]) a
  | noFunction {data global json parse receiver args} :
      ArgPart ⟨3, data⟩ (jsonHead "parse" global json parse ++
        [⟨.callNonFunction .jsonMember parse receiver args, ()⟩]) none
  | other {type data} : type ≠ 1 → type ≠ 2 → type ≠ 3 → ArgPart ⟨type, data⟩ [] none

inductive ArgsPart : List WXJSObject → History → List Handle → Prop where
  | nil : ArgsPart [] [] []
  | cons {arg jargs h h' obj objs} : ArgPart arg h obj → ArgsPart jargs h' objs →
      ArgsPart (arg :: jargs) (h ++ h') (obj :: objs)

/-- The reads that lead from the global object of the time to `f`, which is called on
`receiver`. -/
inductive LookupPart (function : List UInt16) :
    Option (List UInt16) → History → Value → Value → Prop where
  | global {global f key} : DecodesTo function (some key) → f.isSmi = false →
      LookupPart function none [⟨.get .target (.object global) key, some f⟩] (.object global) f
  | member {units global master f key key'} : DecodesTo units (some key) →
      DecodesTo function (some key') → master.isSmi = false → f.isSmi = false →
      LookupPart function (some units)
        [⟨.get .namespaceObject (.object global) key, some master⟩,
         ⟨.get .target master key', some f⟩] master f

/-- The call, and what it gives. -/
inductive CallPart (jnamespace : Option (List UInt16)) (function : List UInt16)
    (objs : List Handle) : History → Handle → Prop where
  | called {h receiver f values ret} : LookupPart function jnamespace h receiver f →
      f.isFunction = true → objs = values.map some →
      CallPart jnamespace function objs (h ++ [⟨.call .target f receiver values, ret⟩]) ret
  | refused {h receiver f} : LookupPart function jnamespace h receiver f →
      f.isFunction = false → CallPart jnamespace function objs
        (h ++ [⟨.callNonFunction .target f (some receiver) objs, ()⟩]) none

/-- An exchange that neither calls JavaScript or Java nor reads a property. -/
def Question.IsReading : Question → Prop
  | .toString _ _ => True
  | .exception => True
  | .message => True
  | .scriptResourceName => True
  | .lineNumber => True
  | .stackTrace => True
  | _ => False

/-- A string that `ReportException` has asked for, and cannot write. -/
def Unprintable : BridgeExchange → Prop
  | ⟨.toString .report _, a⟩ => ¬ Writes a
  | ⟨.exception, v⟩ => ∃ s, v = some (.string s) ∧ ¬ s.tree.Writable
  | ⟨.scriptResourceName, v⟩ => ∃ s, v = some (.string s) ∧ ¬ s.tree.Writable
  | ⟨.stackTrace, v⟩ => ∃ s, v = some (.string s) ∧ ¬ s.tree.Writable
  | _ => False

/-- What a report reads. -/
def ReadsReport (h : History) : Prop := ∀ x ∈ h, x.question.IsReading ∧ ¬ Unprintable x

theorem ReadsReport.append {h h' : History} (hh : ReadsReport h) (hh' : ReadsReport h') :
    ReadsReport (h ++ h') := by
  intro x hx
  rcases List.mem_append.mp hx with hx | hx
  · exact hh x hx
  · exact hh' x hx

/-- The report of an exception, when there is no result. -/
inductive ReportPart : Handle → History → Prop where
  | quiet {v} : ReportPart (some v) []
  | reported {h this params flag} : ReadsReport h →
      ReportPart none (h ++ [⟨.java .reportJSException this params, flag⟩])

/-- An invocation of `execJS` that returns. -/
inductive ExecJSRun (jnamespace : Option (List UInt16)) (function : List UInt16)
    (jargs : List WXJSObject) : History → Bool → Prop where
  | intro {h₁ h₂ h₃ objs ret} : ArgsPart jargs h₁ objs →
      CallPart jnamespace function objs h₂ ret → ReportPart ret h₃ →
      ExecJSRun jnamespace function jargs (h₁ ++ (h₂ ++ h₃)) ret.isSome

/-! ## Every call that returns -/

namespace Bridge

variable {rely : Exchange Answer → World → World → Prop}

/-! ### Arguments -/

theorem returns_jString2V8String (str : Option (List UInt16)) : Returns rely
    (jString2V8String str) fun h text => h = [] ∧ DecodesTo (str.getD []) text := by
  intro s h v t hr
  obtain ⟨text, n, heq, -, hmakes⟩ := jString2V8String_eq str s
  rw [heq] at hr
  obtain ⟨rfl, hv, -⟩ := hr
  cases hv
  exact ⟨rfl, hmakes⟩

theorem returns_asString (data : Option JavaObject) :
    Returns rely (asString data) fun h str => h = [] ∧ IsTextData data (str.getD []) := by
  cases data with
  | none =>
      refine (Returns.pure none).consequence fun hp => ?_
      obtain ⟨rfl, rfl⟩ := hp
      exact ⟨rfl, IsTextData.null⟩
  | some object =>
      cases object with
      | string units =>
          refine (Returns.pure (some units)).consequence fun hp => ?_
          obtain ⟨rfl, rfl⟩ := hp
          exact ⟨rfl, IsTextData.string units⟩
      | _ => exact Returns.crash

/-- Converting a string in between does not change `json_parse`. -/
theorem returns_store_text_use {β : Type} (value : Handle) (data : Option JavaObject)
    {f : Option HeapString → Handle → Bridge β} {post : History → β → Prop}
    (hf : ∀ {units text}, IsTextData data units → DecodesTo units text →
      Returns rely (f text value) post) :
    Returns rely (do
      store .jsonParse value
      let text ← jString2V8String (← asString data)
      let h ← use .jsonParse
      f text h) post := by
  have hstep : ∀ (str : Option (List UInt16)) {s : World}, IsTextData data (str.getD []) →
      s.jsonParse.value = value → ∀ h v t, Runs rely
        ((do let text ← jString2V8String str; let h ← use .jsonParse; f text h : Bridge β) s)
        h (.returned v) t → post h v := by
    intro str s hdata hs h v t hr
    obtain ⟨text, n, heq, -, hmakes⟩ := jString2V8String_eq str s
    rw [Program.bind_apply, heq] at hr
    subst hs
    exact hf hdata hmakes _ h v t hr
  intro s h v t hr
  cases data with
  | none => exact hstep none IsTextData.null rfl h v t hr
  | some object =>
      cases object with
      | string units => exact hstep (some units) (IsTextData.string units) rfl h v t hr
      | _ => cases hr.2.1

theorem returns_doubleArgument (data : Option JavaObject) : Returns rely (doubleArgument data)
    fun h obj => ArgPart ⟨1, data⟩ h obj := by
  have hdouble : ∀ bits, Returns rely (Pure.pure (some (.number bits)) : Bridge Handle)
      fun h obj => ArgPart ⟨1, some (.double bits)⟩ h obj := by
    intro bits
    refine (Returns.pure _).consequence fun hp => ?_
    obtain ⟨rfl, rfl⟩ := hp
    exact ArgPart.double bits
  refine (Returns.read _).skip fun cached => ?_
  split_ifs
  · refine ((returns_newLocalRef _).consequence And.left).skip fun _ => (Returns.modify _).skip
      fun _ => (returns_deleteLocalRef _).skip fun _ => ?_
    split
    · exact hdouble _
    · exact Returns.crash
  · split
    · exact hdouble _
    · exact Returns.crash

theorem returns_textArgument (data : Option JavaObject) : Returns rely (textArgument data)
    fun h obj => ArgPart ⟨2, data⟩ h obj := by
  refine (returns_asString data).then fun hdata => ?_
  refine (returns_jString2V8String _).then fun hmakes => (Returns.pure _).consequence fun hp => ?_
  obtain ⟨rfl, rfl⟩ := hp
  exact ArgPart.text hdata hmakes

theorem returns_jsonArgument (data : Option JavaObject) : Returns rely (jsonArgument data)
    fun h obj => ArgPart ⟨3, data⟩ h obj := by
  refine returns_globalObject.then fun hglobal => ?_
  obtain ⟨global, rfl⟩ := hglobal
  refine (returns_objectGet _ _ _).bind fun {json h₁} hjson => ?_
  obtain ⟨_, _, hv, hkey, -, rfl⟩ := hjson
  cases hv
  cases hkey
  refine returns_store_use .json json ?_
  refine (returns_objectGet _ _ _).bind fun {parse h₂} hparse => ?_
  obtain ⟨json, _, rfl, hkey, hsmi, rfl⟩ := hparse
  cases hkey
  refine returns_store_text_use parse data fun {units text} hdata hmakes => ?_
  refine (returns_use .json).skip fun receiver => ?_
  refine (returns_functionCall _ _ _ _).consequence fun {h a} hcall => ?_
  obtain ⟨parse, rfl, hparse, ⟨receiver, values, hfunction, rfl, hvalues, rfl⟩ |
    ⟨-, rfl, rfl⟩⟩ := hcall
  · cases text with
    | none => cases hvalues
    | some text =>
        cases hvalues
        exact ArgPart.json hdata hmakes hsmi hparse hfunction
  · exact ArgPart.noFunction

theorem returns_convertValue (arg : WXJSObject) :
    Returns rely (convertValue arg) fun h obj => ArgPart arg h obj := by
  obtain ⟨type, data⟩ := arg
  simp only [convertValue]
  split_ifs with h₁ h₂ h₃
  · cases h₁
    exact returns_doubleArgument data
  · cases h₂
    exact returns_textArgument data
  · cases h₃
    exact returns_jsonArgument data
  · refine (Returns.pure none).consequence fun hp => ?_
    obtain ⟨rfl, rfl⟩ := hp
    exact ArgPart.other h₁ h₂ h₃

theorem returns_newLocalObject (object : Option JavaObject) :
    Returns rely (newLocalObject object) fun h _ => h = [] := by
  cases object with
  | none => exact (Returns.pure none).consequence And.left
  | some object =>
      exact (returns_newLocalRef object).then fun _ => (Returns.pure _).consequence And.left

theorem returns_convertArgument (arg : WXJSObject) :
    Returns rely (convertArgument arg) fun h obj => ArgPart arg h obj := by
  refine ((returns_newLocalRef _).consequence And.left).skip fun _ => ?_
  refine (returns_newLocalObject _).skip fun _ => (returns_convertValue arg).bind fun hobj => ?_
  refine (returns_deleteLocalRef _).skip fun _ => (returns_deleteLocalRef _).skip fun _ =>
    (Returns.pure _).consequence fun hp => ?_
  obtain ⟨rfl, rfl⟩ := hp
  rwa [List.append_nil]

theorem returns_convertArguments : ∀ jargs : List WXJSObject,
    Returns rely (convertArguments jargs) fun h objs => ArgsPart jargs h objs
  | [] => by
      refine (Returns.pure []).consequence fun hp => ?_
      obtain ⟨rfl, rfl⟩ := hp
      exact ArgsPart.nil
  | arg :: jargs => by
      refine (returns_convertArgument arg).bind fun hobj => ?_
      refine (returns_convertArguments jargs).bind fun hobjs => ?_
      refine (Returns.pure _).consequence fun hp => ?_
      obtain ⟨rfl, rfl⟩ := hp
      rw [List.append_nil]
      exact ArgsPart.cons hobj hobjs

/-! ### The call -/

theorem returns_getStringUTFChars (units : List UInt16) :
    Returns rely (getStringUTFChars (some units))
      fun h chars => h = [] ∧ ∃ id, chars = some (id, modifiedUtf8 units ++ [0]) := by
  refine (Returns.read _).skip fun id => (Returns.modify _).skip fun _ => ?_
  exact (Returns.pure _).consequence fun hp => ⟨hp.1, id, hp.2⟩

theorem returns_stringNew (t : List UInt16) : Returns rely (stringNew (modifiedUtf8 t ++ [0]))
    fun h text => h = [] ∧ DecodesTo t text := by
  intro s h v t' hr
  obtain ⟨text, heq, hmakes⟩ := stringNew_modifiedUtf8 t s
  rw [heq] at hr
  obtain ⟨rfl, hv, -⟩ := hr
  cases hv
  exact ⟨rfl, hmakes⟩

theorem eq_map_some_of_mapM_id : ∀ {objs : List Handle} {values : List Value},
    objs.mapM id = some values → objs = values.map some
  | [], values, h => by
      cases h
      rfl
  | none :: objs, values, h => by
      rw [List.mapM_cons] at h
      cases h
  | some v :: objs, values, h => by
      rw [List.mapM_cons] at h
      cases htail : objs.mapM id with
      | none =>
          rw [htail] at h
          cases h
      | some values' =>
          rw [htail] at h
          cases h
          rw [eq_map_some_of_mapM_id htail]
          rfl

/-- The call after the reads of `h`. -/
theorem returns_functionCall_target {jnamespace : Option (List UInt16)} {function : List UInt16}
    {h₁ : History} {receiver : Value} {f : Handle} {objs : List Handle}
    (hf : ∀ f', f = some f' → f'.isSmi = false → LookupPart function jnamespace h₁ receiver f') :
    Returns rely (functionCall .target f (some receiver) objs)
      fun h ret => CallPart jnamespace function objs (h₁ ++ h) ret := by
  refine (returns_functionCall _ _ _ _).consequence fun hcall => ?_
  obtain ⟨f, rfl, hsmi, ⟨_, values, hfunction, hv, hvalues, rfl⟩ | ⟨hfunction, rfl, rfl⟩⟩ := hcall
  · cases hv
    exact CallPart.called (hf f rfl hsmi) hfunction (eq_map_some_of_mapM_id hvalues)
  · exact CallPart.refused (hf f rfl hsmi) hfunction

theorem returns_callTarget (jnamespace : Option (List UInt16)) (function : List UInt16) (id : Nat)
    (objs : List Handle) : Returns rely
      (callTarget jnamespace (some function) (some (id, modifiedUtf8 function ++ [0])) objs)
      fun h ret => CallPart jnamespace function objs h ret := by
  refine returns_globalObject.then fun hglobal => ?_
  obtain ⟨global, rfl⟩ := hglobal
  cases jnamespace with
  | none =>
      refine (returns_stringNew function).then fun {key} hkey => ?_
      refine (returns_objectGet _ _ _).bind fun {f h₁} hget => ?_
      obtain ⟨_, key, hv, rfl, -, rfl⟩ := hget
      cases hv
      refine returns_functionCall_target fun f' hf' hsmi => ?_
      cases hf'
      exact LookupPart.global hkey hsmi
  | some units =>
      refine (returns_jString2V8String _).then fun {key} hkey => ?_
      refine (returns_objectGet _ _ _).bind fun {master h₁} hget => ?_
      obtain ⟨_, key, hv, rfl, -, rfl⟩ := hget
      cases hv
      refine (returns_jString2V8String _).then fun {key'} hkey' => ?_
      refine (returns_objectGet _ _ _).bind fun {f h₂} hget => ?_
      obtain ⟨master, key', rfl, rfl, hmaster, rfl⟩ := hget
      show Returns rely _ fun h ret => CallPart (some units) function objs ([_, _] ++ h) ret
      refine returns_functionCall_target fun f' hf' hsmi => ?_
      cases hf'
      exact LookupPart.member hkey hkey' hmaster hsmi

/-! ### The report -/

/-- `Utf8Value` of a handle that has been asked for. -/
theorem returns_utf8Value_report (v : Handle) : Returns rely (utf8Value .report v)
    fun h _ => ReadsReport h ∧ ∀ s, v = some (.string s) → s.tree.Writable := by
  refine (returns_utf8Value _ _).consequence fun hp => ?_
  obtain ⟨a, ht, hbuffer⟩ := hp
  cases ht with
  | empty => exact ⟨fun _ hx => absurd hx List.not_mem_nil, nofun⟩
  | value ht =>
      cases ht with
      | itself s =>
          refine ⟨fun _ hx => absurd hx List.not_mem_nil, fun s' hs' => ?_⟩
          cases hs'
          exact hbuffer.writes s rfl
      | asked a hstring =>
          refine ⟨fun x hx => ?_, fun s hs => ?_⟩
          · rw [List.mem_singleton.mp hx]
            exact ⟨trivial, not_not_intro hbuffer.writes⟩
          · cases hs
            cases hstring

/-- Something is asked for, and printed. -/
theorem returns_bind_printed {β : Type} {p : Bridge Handle} {f : Option (List UInt8) → Bridge β}
    {g : History} {post : History → Prop} (hg : ReadsReport g)
    (hp : Returns rely p fun h v => (∀ s, v = some (.string s) → s.tree.Writable) → ReadsReport h)
    (hf : ∀ value h₁, ReadsReport (g ++ h₁) →
      Returns rely (f value) fun h _ => post (g ++ h₁ ++ h)) :
    Returns rely (p >>= fun v => utf8Value .report v >>= f) fun h _ => post (g ++ h) := by
  refine hp.bind fun {v h₁} hh₁ => (returns_utf8Value_report v).bind fun {value h₂} hh₂ => ?_
  have hread := (hg.append (hh₁ hh₂.2)).append hh₂.1
  rw [List.append_assoc] at hread
  refine (hf value _ hread).consequence fun {h v} hpost => ?_
  rwa [List.append_assoc, List.append_assoc] at hpost

/-- Something is asked for that is not printed. -/
theorem returns_bind_reading {α β : Type} {p : Bridge α} {f : α → Bridge β} {g : History}
    {post : History → Prop} (hg : ReadsReport g) (hp : Returns rely p fun h _ => ReadsReport h)
    (hf : ∀ value h₁, ReadsReport (g ++ h₁) →
      Returns rely (f value) fun h _ => post (g ++ h₁ ++ h)) :
    Returns rely (p >>= f) fun h _ => post (g ++ h) := by
  refine hp.bind fun {value h₁} hh => (hf value h₁ (hg.append hh)).consequence fun {h v} hpost => ?_
  rwa [List.append_assoc] at hpost

theorem returns_asked (question : Question) (hq : question.IsReading) : Returns rely
    (ask question) fun h a => ¬ Unprintable ⟨question, a⟩ → ReadsReport h := by
  refine (Returns.ask question).consequence fun hp ha x hx => ?_
  rw [hp] at hx
  rw [List.mem_singleton.mp hx]
  exact ⟨hq, ha⟩

theorem returns_reportToJava (jInstanceId : JObject) (func exceptionString : List UInt8) :
    Returns rely (reportToJava jInstanceId func exceptionString) fun h _ =>
      ∃ this params flag, h = [⟨.java .reportJSException this params, flag⟩] := by
  refine ((returns_newStringUTF _).consequence And.left).skip fun _ => ?_
  refine ((returns_newStringUTF _).consequence And.left).skip fun _ => ?_
  refine (returns_callJava _ _).bind fun hjava => ?_
  obtain ⟨this, rfl⟩ := hjava
  refine (returns_deleteLocalRef _).skip fun _ => (returns_deleteLocalRef _).consequence
    fun hp => ?_
  rw [hp, List.append_nil]
  exact ⟨_, _, _, rfl⟩

/-- An exception is reported once. -/
theorem returns_reportException (jInstanceId : JObject) (func : List UInt8) :
    Returns rely (reportException jInstanceId func) fun h _ => ReportPart none h := by
  have hreport : ∀ {h : History} (exceptionString : List UInt8), ReadsReport h →
      Returns rely (reportToJava jInstanceId func exceptionString)
        fun h' _ => ReportPart none (h ++ h') := by
    intro h exceptionString hh
    refine (returns_reportToJava _ _ _).consequence fun hp => ?_
    obtain ⟨this, params, flag, rfl⟩ := hp
    exact ReportPart.reported hh
  have hprintable : ∀ {v : Handle}, (∀ s, v = some (.string s) → s.tree.Writable) →
      ¬ ∃ s, v = some (.string s) ∧ ¬ s.tree.Writable :=
    fun hv ⟨s, hs, hwritable⟩ => hwritable (hv s hs)
  have hnil : ReadsReport [] := fun _ hx => absurd hx List.not_mem_nil
  refine returns_bind_printed hnil ((returns_asked .exception trivial).consequence
    fun hp hv => hp (hprintable hv)) fun _ _ hh => ?_
  refine returns_bind_reading hh ((returns_asked .message trivial).consequence fun hp => hp id)
    fun message _ hh => ?_
  split_ifs
  · refine returns_bind_printed hh ((returns_asked .scriptResourceName trivial).consequence
      fun hp hv => hp (hprintable hv)) fun _ _ hh => ?_
    refine returns_bind_reading hh ((returns_asked .lineNumber trivial).consequence
      fun hp => hp id) fun _ _ hh => ?_
    exact returns_bind_printed hh ((returns_asked .stackTrace trivial).consequence
      fun hp hv => hp (hprintable hv)) fun _ _ hh => hreport _ hh
  · exact hreport _ hh

/-! ### All of it -/

theorem returns_releaseStringUTFChars (chars : Option (Nat × List UInt8)) :
    Returns rely (releaseStringUTFChars chars) fun h _ => h = [] := by
  cases chars with
  | none => exact (Returns.pure ()).consequence And.left
  | some chars => exact Returns.modify _

theorem returns_execJS (jinstanceid : JObject) (jnamespace : Option (List UInt16))
    (function : List UInt16) (jargs : List WXJSObject) :
    Returns rely (execJS jinstanceid jnamespace (some function) jargs)
      fun h b => ExecJSRun jnamespace function jargs h b := by
  refine ((returns_newLocalRef _).consequence And.left).skip fun _ => ?_
  refine (returns_convertArguments jargs).bind fun {objs h₁} hobjs => ?_
  refine (returns_deleteLocalRef _).skip fun _ => ?_
  refine (returns_getStringUTFChars function).then fun hfunc => ?_
  obtain ⟨id, rfl⟩ := hfunc
  refine (returns_callTarget _ _ _ _).bind fun {ret h₂} hcall => ?_
  cases ret with
  | none =>
      refine (returns_reportException _ _).bind fun hreport => ?_
      refine (returns_releaseStringUTFChars _).skip fun _ => (Returns.pure _).consequence
        fun hp => ?_
      obtain ⟨rfl, rfl⟩ := hp
      rw [List.append_nil]
      exact ExecJSRun.intro hobjs hcall hreport
  | some value =>
      refine (returns_releaseStringUTFChars _).skip fun _ => (Returns.pure _).consequence
        fun hp => ?_
      obtain ⟨rfl, rfl⟩ := hp
      exact ExecJSRun.intro hobjs hcall ReportPart.quiet

end Bridge

section
variable {rely : Exchange Answer → World → World → Prop}

theorem returns_withLocalFrame {α : Type} {code : Bridge α} {post : History → α → Prop}
    (hc : Returns rely code post) : Returns rely (Bridge.withLocalFrame code) post := by
  refine (Returns.read _).skip fun _ => (Returns.modify _).skip fun _ => hc.bind fun hv => ?_
  refine (Returns.modify _).skip fun _ => (Returns.pure _).consequence fun hp => ?_
  obtain ⟨rfl, rfl⟩ := hp
  rwa [List.append_nil]

theorem returns_body_execJS (jinstanceid jnamespace : Option (List UInt16))
    (function : List UInt16) (jargs : List WXJSObject) :
    Returns rely (body (.execJS jinstanceid jnamespace (some function) jargs))
      fun h v => ∃ b, v = .jint b ∧ ExecJSRun jnamespace function jargs h b := by
  refine returns_withLocalFrame (Bridge.returns_withHandleScope ?_)
  refine (Bridge.returns_execJS _ jnamespace function jargs).bind fun {b h} hrun => ?_
  refine (Returns.pure _).consequence fun hp => ?_
  obtain ⟨rfl, rfl⟩ := hp
  rw [List.append_nil]
  exact ⟨b, rfl, hrun⟩

end

end WeexBridge
