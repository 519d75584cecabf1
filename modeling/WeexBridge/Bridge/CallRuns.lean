/-
# `execJS` in every run

A call of `execJS` keeps its contract exactly when it is servable.  What returns is settled
by its history; here it is shown that nothing else crashes: while the answers are usable,
and the arguments and names are such as V8 can take, no handle is empty.
-/
import WeexBridge.Bridge.CallContract
import WeexBridge.Bridge.Remains

namespace WeexBridge

open Reentrant CodeUnits

/-! ## Until it returns -/

/-- An answer that V8 can go on with. -/
theorem exists_of_usable {site : GetSite} {receiver : Value} {key : HeapString} {a : Handle}
    (ha : Usable ⟨.get site receiver key, a⟩) : ∃ v, a = some v ∧ v.isSmi = false := by
  cases a with
  | none => exact absurd (fun _ h => by cases h) ha.1
  | some v =>
      refine ⟨v, rfl, eq_false_of_ne_true fun hv => ha.1 fun v' hv' => ?_⟩
      cases hv'
      exact hv

namespace Bridge

variable {rely : Exchange Answer → World → World → Prop}

theorem steady_jString2V8String (str : Option (List UInt16)) :
    Steady rely (jString2V8String str) := by
  intro s h t hr
  obtain ⟨text, n, heq, -⟩ := jString2V8String_eq str s
  rw [heq] at hr
  cases hr.2.1

theorem steady_stringNew (t : List UInt16) :
    Steady rely (stringNew (modifiedUtf8 t ++ [0])) := by
  intro s h t' hr
  obtain ⟨text, heq, -⟩ := stringNew_modifiedUtf8 t s
  rw [heq] at hr
  cases hr.2.1

theorem steady_newLocalObject (object : Option JavaObject) :
    Steady rely (newLocalObject object) := by
  cases object with
  | none => exact Steady.pure _
  | some object => exact (Steady.newLocalRef object).bind fun _ => Steady.pure _

theorem steady_releaseStringUTFChars (chars : Option (Nat × List UInt8)) :
    Steady rely (releaseStringUTFChars chars) := by
  cases chars with
  | none => exact Steady.pure _
  | some chars => exact Crashes.modify _

theorem steady_reportToJava (jInstanceId : JObject) (func exceptionString : List UInt8) :
    Steady rely (reportToJava jInstanceId func exceptionString) :=
  (Steady.newStringUTF _).bind fun _ => (Steady.newStringUTF _).bind fun _ =>
    (Steady.callJava _ _).bind fun _ => (Steady.deleteLocalRef _).bind fun _ =>
      Steady.deleteLocalRef _

/-! ### The report -/

/-- Something that can be printed is asked for, and printed. -/
theorem sound_bind_printed {β : Type} {p : Bridge Handle} {f : Option (List UInt8) → Bridge β}
    (hp : Steady rely p) (hr : Returns rely p fun h v => (∀ x ∈ h, ¬ Unprintable x) →
      ∀ s, v = some (.string s) → s.tree.Writable)
    (hf : ∀ value, Sound rely Usable (fun _ => True) (f value)) :
    Sound rely Usable (fun _ => True) (p >>= fun v => utf8Value .report v >>= f) := by
  refine Sound.bind (Triple.free _) hr (Sound.of_crashes hp) fun {v h} hv hh => ?_
  refine Sound.bind_any (Triple.free _) (sound_utf8Value (hv fun x hx => (hh x hx).2)
    fun {v s} _ _ hgood => ?_) hf
  by_contra hno
  exact hgood.2 fun hwrites => hno (hwrites s rfl)

theorem returns_printable {question : Question} {P : Answer question → Prop}
    (hP : ∀ a, ¬ P a → Unprintable ⟨question, a⟩) :
    Returns rely (ask question) fun h a => (∀ x ∈ h, ¬ Unprintable x) → P a := by
  refine (Returns.ask question).consequence fun {h a} hh hno => ?_
  by_contra hP'
  exact hno ⟨question, a⟩ (hh ▸ List.mem_cons_self) (hP a hP')

theorem exists_not_writable {v : Handle} (h : ¬ ∀ s, v = some (.string s) → s.tree.Writable) :
    ∃ s, v = some (.string s) ∧ ¬ s.tree.Writable := by
  push Not at h
  exact h

theorem sound_reportException (jInstanceId : JObject) (func : List UInt8) :
    Sound rely Usable (fun _ => True) (reportException jInstanceId func) := by
  refine sound_bind_printed (Crashes.ask Question.exception)
    (returns_printable fun v => exists_not_writable) fun _ => ?_
  refine Sound.bind_any (Triple.free _) (Sound.ask Question.message) fun message => ?_
  split_ifs
  · refine sound_bind_printed (Crashes.ask Question.scriptResourceName)
      (returns_printable fun v => exists_not_writable) fun _ => ?_
    refine Sound.bind_any (Triple.free _) (Sound.ask Question.lineNumber) fun _ => ?_
    exact sound_bind_printed (Crashes.ask Question.stackTrace)
      (returns_printable fun v => exists_not_writable)
      fun _ => Sound.of_crashes (steady_reportToJava _ _ _)
  · exact Sound.of_crashes (steady_reportToJava _ _ _)

/-! ### Arguments -/

theorem steady_asString {data : Option JavaObject} {units : List UInt16}
    (hdata : IsTextData data units) : Steady rely (asString data) := by
  cases hdata with
  | null => exact Steady.pure _
  | string units => exact Steady.pure _

theorem steady_doubleArgument (bits : UInt64) :
    Steady rely (doubleArgument (some (.double bits))) := by
  refine Steady.bind (Crashes.read _) fun cached => ?_
  split_ifs
  · exact (Steady.newLocalRef _).bind fun _ => Steady.bind (Crashes.modify _) fun _ =>
      (Steady.deleteLocalRef _).bind fun _ => Steady.pure _
  · exact Steady.pure _

/-- Behind the read of `JSON.parse`: the receiver may be another by now, but it is
there. -/
theorem sound_callParse {parse : Value} (hparse : parse.isSmi = false) {data : Option JavaObject}
    {units : List UInt16} (hdata : IsTextData data units) (hfits : V8.Fits units) :
    Sound rely Usable LiveJson (do
      store .jsonParse (some parse)
      let text ← jString2V8String (← asString data)
      functionCall .jsonMember (← use .jsonParse) (← use .json) [text.map .string]) := by
  have hstep : ∀ {s : World} (str : Option (List UInt16)), str.getD [] = units →
      s.json.value.isSome = true → s.jsonParse.value = some parse → ∀ h t, Runs rely
        ((do
          let text ← jString2V8String str
          functionCall .jsonMember (← use .jsonParse) (← use .json)
            [text.map .string] : Bridge Handle) s) h .crashed t → False := by
    intro s str hstr hjson hs h t hr
    obtain ⟨text, n, heq, -, hmakes⟩ := jString2V8String_eq str s
    obtain ⟨json, hjson⟩ := Option.isSome_iff_exists.mp hjson
    have hsome := (DecodesTo.fits_iff hmakes).mpr (hstr ▸ hfits)
    obtain ⟨text, rfl⟩ := Option.isSome_iff_exists.mp hsome
    rw [Program.bind_apply, heq] at hr
    have hcall : Steady rely (functionCall .jsonMember (some parse) (some json)
        ([.string text].map some)) := steady_functionCall hparse _
    rw [← hjson, ← hs] at hcall
    exact hcall _ h t hr
  intro s hs h t hr
  have hstored := hstep (s := { s.setHandle ⟨some parse, s.scope⟩ .jsonParse with
    trace := .stored s.scope .jsonParse ⟨some parse, s.scope⟩ :: s.trace })
  cases hdata with
  | null => exact (hstored none rfl hs.2 rfl h t hr).elim
  | string units => exact (hstored (some units) rfl hs.2 rfl h t hr).elim

section
variable (hrely : ∀ {x s s'}, rely x s s' → Remains s s')
include hrely

theorem sound_jsonArgument {data : Option JavaObject} {units : List UInt16}
    (hdata : IsTextData data units) (hfits : V8.Fits units) :
    Sound rely Usable Live (jsonArgument data) := by
  have hlive : Lax rely Live := lax_live hrely
  have hlive' : Lax rely LiveJson := lax_liveJson hrely
  refine Sound.bind hlive.globalObject returns_globalObject sound_globalObject
    fun hglobal _ => ?_
  obtain ⟨-, global, rfl⟩ := hglobal
  refine Sound.bind (hlive.objectGet _ _ _) (returns_objectGet _ _ _)
    (Sound.of_crashes (steady_objectGet rfl _)) fun hget husable => ?_
  obtain ⟨_, _, -, -, -, rfl⟩ := hget
  obtain ⟨json, rfl, hjson⟩ := exists_of_usable (husable _ List.mem_cons_self)
  refine sound_store_use (J := LiveJson) (fun hs => ⟨hs, rfl⟩) ?_
  refine Sound.bind (hlive'.objectGet _ _ _) (returns_objectGet _ _ _)
    (Sound.of_crashes (steady_objectGet hjson _)) fun hget husable => ?_
  obtain ⟨_, _, -, -, -, rfl⟩ := hget
  obtain ⟨parse, rfl, hparse⟩ := exists_of_usable (husable _ List.mem_cons_self)
  exact sound_callParse hparse hdata hfits

theorem sound_convertValue {arg : WXJSObject} (harg : Convertible arg) :
    Sound rely Usable Live (convertValue arg) := by
  cases harg with
  | double bits => exact Sound.of_crashes (steady_doubleArgument bits)
  | text hdata _ => exact Sound.of_crashes ((steady_asString hdata).bind fun _ =>
      (steady_jString2V8String _).bind fun _ => Steady.pure _)
  | json hdata hfits => exact sound_jsonArgument hrely hdata hfits

theorem sound_convertArgument {arg : WXJSObject} (harg : Convertible arg) :
    Sound rely Usable Live (convertArgument arg) := by
  have hlive : Lax rely Live := lax_live hrely
  refine Sound.bind_any (hlive.newLocalRef _) (Sound.of_crashes (Steady.newLocalRef _))
    fun _ => ?_
  refine Sound.bind_any (hlive.newLocalObject _) (Sound.of_crashes (steady_newLocalObject _))
    fun _ => ?_
  refine Sound.bind_any (hlive.convertValue arg fun _ => hlive.jsonArgument _)
    (sound_convertValue hrely harg) fun _ => ?_
  exact Sound.of_crashes ((Steady.deleteLocalRef _).bind fun _ =>
    (Steady.deleteLocalRef _).bind fun _ => Steady.pure _)

theorem sound_convertArguments : ∀ {jargs : List WXJSObject}, (∀ arg ∈ jargs, Convertible arg) →
    Sound rely Usable Live (convertArguments jargs)
  | [], _ => Sound.pure _
  | arg :: jargs, hargs => by
      have hlive : Lax rely Live := lax_live hrely
      obtain ⟨harg, hargs⟩ := List.forall_mem_cons.mp hargs
      refine Sound.bind_any (hlive.convertArgument arg fun _ => hlive.jsonArgument _)
        (sound_convertArgument hrely harg) fun _ => ?_
      exact Sound.bind_any (hlive.convertArguments jargs fun _ _ _ => hlive.jsonArgument _)
        (sound_convertArguments hargs) fun _ => Sound.pure _

/-! ### The call -/

theorem sound_callTarget {jnamespace : Option (List UInt16)} {function : List UInt16}
    (hfits : ∀ name ∈ function :: jnamespace.toList, V8.Fits name) (id : Nat)
    (values : List Value) : Sound rely Usable Live (callTarget jnamespace (some function)
      (some (id, modifiedUtf8 function ++ [0])) (values.map some)) := by
  have hlive : Lax rely Live := lax_live hrely
  refine Sound.bind hlive.globalObject returns_globalObject sound_globalObject
    fun hglobal _ => ?_
  obtain ⟨-, global, rfl⟩ := hglobal
  obtain ⟨hfunction, hnamespace⟩ := List.forall_mem_cons.mp hfits
  cases jnamespace with
  | none =>
      refine Sound.bind (hlive.stringNew _) (returns_stringNew function)
        (Sound.of_crashes (steady_stringNew _)) fun hkey _ => ?_
      obtain ⟨key, rfl⟩ := Option.isSome_iff_exists.mp (hkey.2.fits_iff.mpr hfunction)
      refine Sound.bind (hlive.objectGet _ _ _) (returns_objectGet _ _ _)
        (Sound.of_crashes (steady_objectGet rfl _)) fun hget husable => ?_
      obtain ⟨_, _, -, -, -, rfl⟩ := hget
      obtain ⟨f, rfl, hf⟩ := exists_of_usable (husable _ List.mem_cons_self)
      exact Sound.of_crashes (steady_functionCall hf values)
  | some units =>
      refine Sound.bind (hlive.jString2V8String _) (returns_jString2V8String _)
        (Sound.of_crashes (steady_jString2V8String _)) fun hkey _ => ?_
      obtain ⟨key, rfl⟩ := Option.isSome_iff_exists.mp
        (hkey.2.fits_iff.mpr (hnamespace _ List.mem_cons_self))
      refine Sound.bind (hlive.objectGet _ _ _) (returns_objectGet _ _ _)
        (Sound.of_crashes (steady_objectGet rfl _)) fun hget husable => ?_
      obtain ⟨_, _, -, -, -, rfl⟩ := hget
      obtain ⟨master, rfl, hmaster⟩ := exists_of_usable (husable _ List.mem_cons_self)
      refine Sound.bind (hlive.jString2V8String _) (returns_jString2V8String _)
        (Sound.of_crashes (steady_jString2V8String _)) fun hkey _ => ?_
      obtain ⟨key', rfl⟩ := Option.isSome_iff_exists.mp (hkey.2.fits_iff.mpr hfunction)
      refine Sound.bind (hlive.objectGet _ _ _) (returns_objectGet _ _ _)
        (Sound.of_crashes (steady_objectGet hmaster _)) fun hget husable => ?_
      obtain ⟨_, _, -, -, -, rfl⟩ := hget
      obtain ⟨f, rfl, hf⟩ := exists_of_usable (husable _ List.mem_cons_self)
      exact Sound.of_crashes (steady_functionCall hf values)

/-- With arguments and names that V8 can take, a crash takes an answer that it cannot. -/
theorem sound_execJS (jinstanceid : JObject) {jnamespace : Option (List UInt16)}
    {function : List UInt16} {jargs : List WXJSObject} (hargs : ∀ arg ∈ jargs, Convertible arg)
    (hfits : ∀ name ∈ function :: jnamespace.toList, V8.Fits name) :
    Sound rely Usable Live (execJS jinstanceid jnamespace (some function) jargs) := by
  have hlive : Lax rely Live := lax_live hrely
  refine Sound.bind_any (hlive.newLocalRef _) (Sound.of_crashes (Steady.newLocalRef _))
    fun _ => ?_
  refine Sound.bind (hlive.convertArguments jargs fun _ _ _ => hlive.jsonArgument _)
    (returns_convertArguments jargs) (sound_convertArguments hrely hargs)
    fun hparts husable => ?_
  obtain ⟨values, rfl⟩ := exists_map_some (hparts.not_mem hargs husable)
  refine Sound.bind_any (hlive.deleteLocalRef _) (Sound.of_crashes (Steady.deleteLocalRef _))
    fun _ => ?_
  refine Sound.bind (hlive.getStringUTFChars _) (returns_getStringUTFChars function)
    (Sound.of_crashes ?_) fun hfunc _ => ?_
  · exact Steady.bind (Crashes.read _) fun _ => Steady.bind (Crashes.modify _)
      fun _ => Steady.pure _
  obtain ⟨-, id, rfl⟩ := hfunc
  refine Sound.bind_any (hlive.callTarget _ _ _ _) (sound_callTarget hrely hfits _ _)
    fun ret => ?_
  cases ret with
  | none =>
      refine Sound.mono_pre (Sound.bind_any (Triple.free _) (sound_reportException _ _) fun _ =>
        Sound.of_crashes ?_) fun _ => trivial
      exact (steady_releaseStringUTFChars _).bind fun _ => Steady.pure _
  | some ret =>
      exact Sound.of_crashes ((steady_releaseStringUTFChars _).bind fun _ => Steady.pure _)

end

end Bridge

theorem sound_body_execJS {rely : Exchange Answer → World → World → Prop}
    (hrely : ∀ {x s s'}, rely x s s' → Remains s s')
    (jinstanceid : Option (List UInt16)) {jnamespace : Option (List UInt16)}
    {function : List UInt16} {jargs : List WXJSObject} (hargs : ∀ arg ∈ jargs, Convertible arg)
    (hfits : ∀ name ∈ function :: jnamespace.toList, V8.Fits name) :
    Sound rely Usable Live (body (.execJS jinstanceid jnamespace (some function) jargs)) := by
  have hlive : Lax rely Live := lax_live hrely
  have hexec := hlive.execJS (jinstanceid.map fun units => ⟨0, .string units⟩) jnamespace
    (some function) jargs (fun arg _ _ => hlive.jsonArgument arg.data) (hlive.callFunction _ _ _)
  have hkeep := hexec.bind fun b => Preserves.pure (Returned.jint b)
  have hcode := Sound.bind_any hexec (Bridge.sound_execJS hrely _ hargs hfits) fun b =>
    Sound.pure (Returned.jint b)
  exact sound_withLocalFrame hlive (hlive.withHandleScope hkeep)
    (sound_withHandleScope hlive hkeep hcode)

/-! ## In every run -/

/-- In every run, a call of `execJS` with a context keeps its contract exactly when it is
servable. -/
theorem meetsContract_iff {platform : Platform} {c : BridgeConfig} (hc : AnyRun platform c)
    {inv : BridgeInvocation} (hinv : inv ∈ c.log)
    {jinstanceid jnamespace : Option (List UInt16)} {function : List UInt16}
    {jargs : List WXJSObject}
    (hentry : inv.entry = .execJS jinstanceid jnamespace (some function) jargs)
    {context : Context} (hstart : inv.start.v8context = some context) :
    MeetsContract context.global jnamespace function jargs inv.history inv.outcome ↔
      Servable context.global jnamespace function jargs inv.history := by
  have hruns := runs_remains hc hinv
  rw [hentry] at hruns
  generalize ho : inv.outcome = o at hruns
  cases o with
  | returned v =>
      obtain ⟨b, rfl, hrun⟩ := returns_body_execJS jinstanceid jnamespace function jargs
        _ _ _ _ hruns
      exact hrun.meets_iff
  | crashed =>
      refine iff_of_false (fun hm => ?_) fun hserve => ?_
      · cases hm.isReturned
      · have hlive : Live inv.start := Option.isSome_iff_exists.mpr ⟨context, hstart⟩
        have hfits : ∀ name ∈ function :: jnamespace.toList, V8.Fits name :=
          fun name hname => (V8.comesWhole_iff.mp (hserve.names name hname)).2
        exact sound_body_execJS id jinstanceid hserve.convertible hfits _ hlive _ _ hruns
          hserve.usable

/-! ### Two calls -/

theorem usable_usual {x : BridgeExchange} (hx : x.answer = x.question.usual)
    (hsite : x.question.site = some .target) : Usable x := by
  obtain ⟨question, a⟩ := x
  cases question with
  | get site _ _ =>
      cases hsite
      cases hx
      exact usable_of_get rfl
  | call site _ _ _ =>
      cases hsite
      exact ⟨id, id⟩
  | callNonFunction site _ _ _ =>
      cases hsite
      exact ⟨id, id⟩
  | _ => cases hsite

/-- `execJS(id, null, "f", [2.0])`, where `f` is found. -/
theorem meetsContract_double :
    let jargs : List WXJSObject := [⟨1, some (.double 0x4000000000000000)⟩]
    let run := (body (.execJS none none (some [0x66]) jargs) (.initialised .plain)).play
      Question.usual
    ∃ context, (World.initialised .plain).v8context = some context ∧
      MeetsContract context.global none [0x66] jargs run.1 run.2.1 := by
  dsimp only
  obtain ⟨c, hc, hinv⟩ := anyRun_play_initialised
    (.execJS none none (some [0x66]) [⟨1, some (.double 0x4000000000000000)⟩]) Question.usual
  have hstart : (World.initialised .plain).v8context = some ⟨10, 0⟩ := by decide +kernel
  have hsites : ((body (.execJS none none (some [0x66])
      [⟨1, some (.double 0x4000000000000000)⟩]) (.initialised .plain)).play
        Question.usual).1.map (fun x => x.question.site) = [some .target, some .target] := by
    decide +kernel
  have hreads : ((body (.execJS none none (some [0x66])
      [⟨1, some (.double 0x4000000000000000)⟩]) (.initialised .plain)).play
        Question.usual).1.map (fun x => x.question.read) =
          [some (.target, .object 0), none] := by
    decide +kernel
  have hanswers := fun x => @answer_of_mem_play _ _ _ _ Question.usual
    (body (.execJS none none (some [0x66]) [⟨1, some (.double 0x4000000000000000)⟩])
      (.initialised .plain)) x
  generalize (body (.execJS none none (some [0x66]) [⟨1, some (.double 0x4000000000000000)⟩])
    (.initialised .plain)).play Question.usual = run at hinv hsites hreads hanswers ⊢
  have hsite : ∀ x ∈ run.1, x.question.site = some .target := by
    intro x hx
    have hm := List.mem_map_of_mem hx (f := fun x => x.question.site)
    rw [hsites] at hm
    simpa using hm
  refine ⟨⟨10, 0⟩, hstart, (meetsContract_iff hc hinv rfl hstart).mpr ?_⟩
  exact {
    convertible := List.forall_mem_singleton.mpr (Convertible.double _)
    usable := fun x hx => usable_usual (hanswers x hx) (hsite x hx)
    names := List.forall_mem_singleton.mpr (by decide)
    onGlobal := by
      intro x hx receiver hread
      have hm := List.mem_map_of_mem hx (f := fun x => x.question.read)
      rw [hreads, hread] at hm
      have hfirst : firstSite none = .target ∧ receiver = .object 0 := by simpa using hm
      exact hfirst.2
    texts := fun _ => ⟨List.forall_mem_singleton.mpr nofun, fun x hx =>
      onGlobal_of_site (by rw [hsite x hx]; exact nofun)⟩ }

/-- An argument with the tag 7 crashes the process. -/
theorem not_meetsContract : ¬ ∀ {platform c}, AnyRun platform c → ∀ inv ∈ c.log,
    ∀ {jinstanceid jnamespace function jargs},
      inv.entry = .execJS jinstanceid jnamespace (some function) jargs →
      ∀ {context}, inv.start.v8context = some context →
        MeetsContract context.global jnamespace function jargs inv.history inv.outcome := by
  intro h
  obtain ⟨c, hc, hinv⟩ := anyRun_play_initialised
    (.execJS none none (some [0x66]) [⟨7, none⟩]) Question.usual
  have hstart : (World.initialised .plain).v8context = some ⟨10, 0⟩ := by decide +kernel
  have hcrashed : ((body (.execJS none none (some [0x66]) [⟨7, none⟩])
      (.initialised .plain)).play Question.usual).2.1.isReturned = false := by decide +kernel
  generalize (body (.execJS none none (some [0x66]) [⟨7, none⟩])
    (.initialised .plain)).play Question.usual = run at hinv hcrashed
  have hreturned := (h hc _ hinv rfl hstart).isReturned
  dsimp only at hreturned
  cases hcrashed.symm.trans hreturned

end WeexBridge
