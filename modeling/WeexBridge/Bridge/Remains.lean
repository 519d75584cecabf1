/-
# What remains

The context and `json`, once there, stay there: `initFramework` puts a context in the
place of a context, and an empty `json` crashes at its first use.  So the handles that
`V8context` and `json` give behind a question are not empty, whatever was invoked
meanwhile.

    Remains     what every entry point keeps
    Live        there is a context
    LiveJson    and a `json`
-/
import WeexBridge.Bridge.Marshalling
import WeexBridge.Bridge.Stable

namespace WeexBridge

open Reentrant

/-- The context and the `json` that are there stay there. -/
def Remains (s s' : World) : Prop :=
  (s.v8context.isSome = true → s'.v8context.isSome = true) ∧
    (s.json.value.isSome = true → s'.json.value.isSome = true)

theorem Remains.refl (s : World) : Remains s s := ⟨id, id⟩

theorem Remains.trans {s₁ s₂ s₃ : World} (h : Remains s₁ s₂) (h' : Remains s₂ s₃) :
    Remains s₁ s₃ :=
  ⟨h'.1 ∘ h.1, h'.2 ∘ h.2⟩

/-- There is a context. -/
def Live (s : World) : Prop := s.v8context.isSome = true

def LiveJson (s : World) : Prop := Live s ∧ s.json.value.isSome = true

/-- An invariant of the context and of whether `json` is there. -/
theorem lax_of {rely : Exchange Answer → World → World → Prop}
    (P : Option Context → Bool → Prop)
    (hrely : ∀ {x s s'}, rely x s s' → P s.v8context s.json.value.isSome →
      P s'.v8context s'.json.value.isSome)
    (hcontext : ∀ {context b} (context' : Context), P context b → P (some context') b)
    (hjson : ∀ {context b}, P context b → P context true) :
    Lax rely fun s => P s.v8context s.json.value.isSome where
  inv _ := trivial
  rely := hrely
  next _ hs := hs
  localRefs _ hs := hs
  strayDeletes _ hs := hs
  callNativeId hs := hs
  callAddElementId hs := hs
  setTimeoutNativeId hs := hs
  logId _ hs := hs
  doubleValueId hs := hs
  chars _ hs := hs
  globalRefs _ hs := hs
  contexts _ hs := hs
  wxEnvironment _ hs := hs
  jThis _ hs := hs
  v8context context hs := hcontext context hs
  scopes _ hs := hs
  trace _ hs := hs
  json _ _ hs := hjson hs
  jsonParse _ hs := hs
  jsonStringify _ hs := hs

section
variable {rely : Exchange Answer → World → World → Prop}
  (hrely : ∀ {x s s'}, rely x s s' → Remains s s')
include hrely

theorem lax_live : Lax rely Live :=
  lax_of (fun context _ => context.isSome = true) (fun hr hs => (hrely hr).1 hs)
    (fun _ _ => rfl) id

theorem lax_liveJson : Lax rely LiveJson :=
  lax_of (fun context json => context.isSome = true ∧ json = true)
    (fun hr hs => ⟨(hrely hr).1 hs.1, (hrely hr).2 hs.2⟩) (fun _ hs => ⟨rfl, hs.2⟩)
    fun hs => ⟨hs.1, rfl⟩

theorem lax_remains (s₀ : World) : Lax rely (Remains s₀) :=
  lax_of (fun context json => (s₀.v8context.isSome = true → context.isSome = true) ∧
      (s₀.json.value.isSome = true → json = true))
    (fun hr hs => ⟨(hrely hr).1 ∘ hs.1, (hrely hr).2 ∘ hs.2⟩)
    (fun _ hs => ⟨fun _ => rfl, hs.2⟩) fun hs => ⟨hs.1, fun _ => rfl⟩

end

/-- Every entry point leaves the context and `json` where they are, or puts others in
their place. -/
def remainsContract : Contract body where
  keeps _ := Remains
  base := Remains
  safe _ := True
  valid _ := True
  admits _ _ := True
  admitted _ _ := True
  keeps_refl _ := Remains.refl
  keeps_trans := Remains.trans
  base_refl := Remains.refl
  base_trans := Remains.trans
  keeps_body {_ e s} _ _ _ :=
    (lax_remains (fun hr => hr.2) s).body e s (Remains.refl s)
  base_body {e s} _ _ :=
    ((lax_remains (fun hr => hr.2) s).body e s (Remains.refl s)).mono fun hs => ⟨hs, trivial⟩

theorem admits_remainsContract (c : BridgeConfig) (m : BridgeMove) :
    remainsContract.Admits c m := by
  cases m with
  | enter entry => exact ⟨trivial, fun _ _ => trivial⟩
  | answer x => exact trivial

/-- A finished invocation is a run, while the context and `json` remain. -/
theorem runs_remains {platform : Platform} {c : BridgeConfig} (hc : AnyRun platform c)
    {inv : BridgeInvocation} (hinv : inv ∈ c.log) :
    Runs (fun _ => Remains) (body inv.entry inv.start) inv.history inv.outcome inv.final :=
  (remainsContract.runs_log (fun {c m} _ => admits_remainsContract c m) trivial hc hinv).2.2.mono
    fun hr => hr.2.2

/-! ## Where the handles are there -/

section
variable {rely : Exchange Answer → World → World → Prop} {good : BridgeExchange → Prop}
  {I J : World → Prop} {α β : Type}

theorem sound_globalObject : Sound rely good Live Bridge.globalObject := by
  intro s hs h t hr
  obtain ⟨context, hcontext⟩ := Option.isSome_iff_exists.mp hs
  have heq : Bridge.globalObject s = .done (.object context.global) s := by
    rw [Bridge.globalObject, Program.read_bind, hcontext]
    rfl
  rw [heq] at hr
  cases hr.2.1

theorem steady_objectGet {site : GetSite} {v : Value} (hv : v.isSmi = false) (key : HeapString) :
    Bridge.Steady rely (Bridge.objectGet site (some v) (some key)) := by
  simp only [Bridge.objectGet, hv, Bool.false_eq_true, if_false]
  exact Crashes.ask _

theorem steady_functionCall {site : GetSite} {f v : Value} (hf : f.isSmi = false)
    (values : List Value) :
    Bridge.Steady rely (Bridge.functionCall site (some f) (some v) (values.map some)) := by
  have hvalues : (values.map some).mapM (id : Handle → Handle) = some values := by
    induction values with
    | nil => rfl
    | cons v values ih =>
        rw [List.map_cons, List.mapM_cons, ih]
        rfl
  simp only [Bridge.functionCall, hf, Bool.false_eq_true, if_false, hvalues]
  split_ifs
  · exact Crashes.ask _
  · exact Bridge.Steady.bind (Crashes.ask _) fun _ => Bridge.Steady.pure _

/-- A value that is put into a global handle and taken out at once is the same. -/
theorem sound_store_use {f : Handle → Bridge β} {var : GlobalHandle} {value : Handle}
    (hI : ∀ {s : World}, I s → J { s.setHandle ⟨value, s.scope⟩ var with
      trace := .used s.scope var ⟨value, s.scope⟩ :: .stored s.scope var ⟨value, s.scope⟩ ::
        s.trace }) (hf : Sound rely good J (f value)) :
    Sound rely good I (do Bridge.store var value; let h ← Bridge.use var; f h) := by
  intro s hs h t hr
  cases var with
  | _ => exact hf _ (hI hs) h t hr

/-- `json` may be another by now, but it is there. -/
theorem sound_use_json {f : Handle → Bridge β} (hf : ∀ json, Sound rely good I (f (some json)))
    (hI : ∀ {s : World} (l : List HandleEvent), LiveJson s → I { s with trace := l }) :
    Sound rely good LiveJson (do let h ← Bridge.use .json; f h) := by
  intro s hs h t hr
  obtain ⟨json, hjson⟩ := Option.isSome_iff_exists.mp hs.2
  have hstep : ∀ value, s.json.value = value →
      Runs rely (f value { s with trace := .used s.scope .json s.json :: s.trace }) h .crashed
        t := by
    rintro _ rfl
    exact hr
  exact hf json _ (hI _ hs) h t (hstep _ hjson)

theorem sound_withHandleScope (h : Lax rely I) {code : Bridge α}
    (hI : Preserves rely (fun _ => True) I code) (hc : Sound rely good I code) :
    Sound rely good I (Bridge.withHandleScope code) := by
  refine Sound.bind_any (Preserves.modify fun {s} hs => ?_) (Sound.modify _)
    fun _ => Sound.bind_any hI hc fun _ => Sound.of_crashes
      (Bridge.Steady.bind (Crashes.modify _) fun _ => Bridge.Steady.pure _)
  exact h.trace (.opened s.next :: s.trace)
    (h.scopes (s.next :: s.scopes) (h.next (Nat.le_succ _) hs))

theorem sound_withLocalFrame (h : Lax rely I) {code : Bridge α}
    (hI : Preserves rely (fun _ => True) I code) (hc : Sound rely good I code) :
    Sound rely good I (Bridge.withLocalFrame code) :=
  Sound.bind_any (Preserves.read _) (Sound.read _) fun _ =>
    Sound.bind_any (Preserves.modify fun hs => h.localRefs [] hs) (Sound.modify _) fun _ =>
      Sound.bind_any hI hc fun _ => Sound.of_crashes
        (Bridge.Steady.bind (Crashes.modify _) fun _ => Bridge.Steady.pure _)

end

end WeexBridge
