/-
# What `nativeLog` hands to Java

The loop concatenates the texts of the arguments into an accumulator that changes
its representation as it grows; `String::Value` reads it back unit by unit.  Java
gets the texts one after the other, whatever they hold, as long as they fit into
one string.
-/
import WeexBridge.Bridge.LocalRefs
import WeexBridge.Bridge.Marshalling

namespace WeexBridge

open Reentrant CodeUnits

open V8.Str (kMaxLength)

/-! ## The accumulator -/

/-- The conversions of the arguments, in order, with their results. -/
inductive Texts : List Value → History → List (Option HeapString) → Prop where
  | nil : Texts [] [] []
  | cons {v vs h h' a as} : Text .log v h a → Texts vs h' as →
      Texts (v :: vs) (h ++ h') (a :: as)

/-- The texts one after the other, without those that are missing. -/
def joined (as : List (Option HeapString)) : List UInt16 :=
  as.flatMap fun a => (a.map HeapString.units).getD []

theorem joined_some (s : HeapString) (as : List (Option HeapString)) :
    joined (some s :: as) = s.units ++ joined as := rfl

theorem joined_append (as as' : List (Option HeapString)) :
    joined (as ++ as') = joined as ++ joined as' := List.flatMap_append

theorem joined_map_some (texts : List HeapString) :
    joined (texts.map some) = texts.flatMap HeapString.units := List.flatMap_map ..

/-- `r` has the units, unless they are too many. -/
def Fits (units : List UInt16) (r : Option HeapString) : Prop :=
  (∃ s, r = some s ∧ s.units = units) ∨ (r = none ∧ kMaxLength < units.length)

namespace Bridge

variable {rely : Exchange Answer → World → World → Prop}

theorem returns_concat (left right : HeapString) : Returns rely (concat (some left) right)
    fun h r => h = [] ∧ Fits (left.units ++ right.units) r := by
  refine (Returns.read _).skip fun platform => ?_
  split
  · rename_i tree htree
    refine (Returns.pure _).consequence fun hp => ?_
    obtain ⟨rfl, rfl⟩ := hp
    exact ⟨rfl, Or.inl ⟨_, rfl,
      (V8.Str.allocateConsString_some left.wellFormed right.wellFormed htree).2⟩⟩
  · rename_i hnone
    refine (Returns.pure _).consequence fun hp => ?_
    obtain ⟨rfl, rfl⟩ := hp
    refine ⟨rfl, Or.inr ⟨rfl, ?_⟩⟩
    by_contra hle
    rw [List.length_append, HeapString.units, HeapString.units,
      V8.Str.length_units left.wellFormed, V8.Str.length_units right.wellFormed] at hle
    obtain ⟨r, hr, -⟩ := V8.Str.allocateConsString_eq platform.stringTable platform.fill
      left.wellFormed right.wellFormed (Nat.not_lt.mp hle)
    cases hnone.symm.trans hr

theorem steady_concat (left right : HeapString) : Steady rely (concat (some left) right) := by
  refine Steady.bind (Crashes.read _) fun platform => ?_
  split
  · exact Steady.pure _
  · exact Steady.pure _

/-- What the accumulator is after `as`, from what it was before. -/
def Accumulates (accumulator : Option HeapString) (as : List (Option HeapString))
    (r : Option HeapString) : Prop :=
  match accumulator with
  | some s => Fits (s.units ++ joined as) r
  | none => r = none

/-- Nothing fits behind what is too long. -/
theorem Accumulates.of_fits {units : List UInt16} {as : List (Option HeapString)}
    {accumulator r : Option HeapString} (hfits : Fits units accumulator)
    (hr : Accumulates accumulator as r) : Fits (units ++ joined as) r := by
  rcases hfits with ⟨s, rfl, rfl⟩ | ⟨rfl, hlong⟩
  · exact hr
  · refine Or.inr ⟨hr, Nat.lt_of_lt_of_le hlong ?_⟩
    rw [List.length_append]
    exact Nat.le_add_right _ _

/-- The accumulator ends with all texts behind what it had, unless they are too many. -/
theorem returns_accumulate : ∀ (vs : List Value) (accumulator : Option HeapString),
    Returns rely (accumulate vs accumulator) fun h r => ∃ as, Texts vs h as ∧
      Accumulates accumulator as r
  | [], accumulator => by
      refine (Returns.pure accumulator).consequence fun {h r} hp => ?_
      obtain ⟨rfl, rfl⟩ := hp
      refine ⟨[], Texts.nil, ?_⟩
      cases r with
      | none => rfl
      | some s => exact Or.inl ⟨s, rfl, (List.append_nil _).symm⟩
  | v :: vs, accumulator => by
      refine (returns_valueToString .log v).bind fun {a h₁} ht => ?_
      cases a with
      | none =>
          refine (returns_accumulate vs accumulator).consequence fun hp => ?_
          obtain ⟨as, has, hr⟩ := hp
          exact ⟨none :: as, Texts.cons ht has, hr⟩
      | some s =>
          cases accumulator with
          | none =>
              have hcrash : Returns rely (concat none s) fun _ _ => False := Returns.crash
              exact hcrash.bind False.elim
          | some left =>
              refine (returns_concat left s).then fun {accumulator} hfits => ?_
              refine (returns_accumulate vs accumulator).consequence fun hp => ?_
              obtain ⟨as, has, hr⟩ := hp
              refine ⟨some s :: as, Texts.cons ht has, ?_⟩
              show Fits (left.units ++ (s.units ++ joined as)) _
              rw [← List.append_assoc]
              exact hr.of_fits hfits

/-- It crashes only where the texts so far are too many already. -/
theorem crashes_accumulate : ∀ (vs : List Value) (accumulator : Option HeapString),
    Crashes rely (accumulate vs accumulator) fun h => ∃ vs₁ vs₂ as, vs = vs₁ ++ vs₂ ∧
      Texts vs₁ h as ∧ ∀ s, accumulator = some s → kMaxLength < (s.units ++ joined as).length
  | [], accumulator => Crashes.pure accumulator
  | v :: vs, accumulator => by
      refine Crashes.bind (returns_valueToString .log v)
        ((Steady.valueToString .log v).consequence False.elim) fun {a h₁} ht => ?_
      cases a with
      | none =>
          refine (crashes_accumulate vs accumulator).consequence fun hp => ?_
          obtain ⟨vs₁, vs₂, as, rfl, has, hlong⟩ := hp
          exact ⟨v :: vs₁, vs₂, none :: as, rfl, Texts.cons ht has, hlong⟩
      | some s =>
          cases accumulator with
          | none =>
              have hreturn : Returns rely (concat none s) fun _ _ => False := Returns.crash
              have hcrash : Crashes rely (concat none s) fun h => h = [] := Crashes.crash
              refine Crashes.bind hreturn (hcrash.consequence fun hp => ?_) False.elim
              cases hp
              exact ⟨[v], vs, [some s], rfl, Texts.cons ht Texts.nil, nofun⟩
          | some left =>
              refine Crashes.bind (returns_concat left s)
                ((steady_concat left s).consequence False.elim) fun {accumulator h₂} hfits => ?_
              obtain ⟨rfl, hfits⟩ := hfits
              refine (crashes_accumulate vs accumulator).consequence fun hp => ?_
              obtain ⟨vs₁, vs₂, as, rfl, has, hlong⟩ := hp
              refine ⟨v :: vs₁, vs₂, some s :: as, rfl, Texts.cons ht has, fun left' hleft => ?_⟩
              cases hleft
              rw [joined_some, ← List.append_assoc]
              rcases hfits with ⟨s', rfl, hs'⟩ | ⟨rfl, hlong'⟩
              · exact hs' ▸ hlong s' rfl
              · rw [List.length_append]
                exact Nat.lt_of_lt_of_le hlong' (Nat.le_add_right _ _)

end Bridge

/-! ## The message -/

/-- The code units of a Java string. -/
def JavaObject.chars : JavaObject → Option (List UInt16)
  | .string units => some units
  | .stringUTF bytes => readModified bytes
  | _ => none

/-- The tag of the message. -/
def jsLog : JavaObject := .stringUTF (cString (Bridge.cLiteral "jsLog"))

/-- The lookups, and the call of `WXLogUtils.d` where nothing is missing. -/
inductive Sends (msg : Option JavaObject) : History → Prop where
  | noClass {name} : Sends msg [⟨.findClass name, false⟩]
  | noMethod {name name'} :
      Sends msg [⟨.findClass name, true⟩, ⟨.getStaticMethodID name', false⟩]
  | lookedUp {name name' flag} : Sends msg [⟨.findClass name, true⟩,
      ⟨.getStaticMethodID name', true⟩, ⟨.java .logD none [some jsLog, msg], flag⟩]
  | known {name flag} :
      Sends msg [⟨.findClass name, true⟩, ⟨.java .logD none [some jsLog, msg], flag⟩]

/-- Where nothing is missing, Java is called, once. -/
theorem Sends.javaCalls {msg : Option JavaObject} {h : History} (hs : Sends msg h)
    (hfound : ∀ x ∈ h, Found x) :
    ∃ flag, javaCalls h = [(.logD, none, [some jsLog, msg], flag)] := by
  cases hs with
  | noClass => cases hfound _ List.mem_cons_self
  | noMethod => cases hfound _ (List.mem_cons_of_mem _ List.mem_cons_self)
  | lookedUp => exact ⟨_, rfl⟩
  | known => exact ⟨_, rfl⟩

/-- The history of `nativeLog` when it returns. -/
inductive NativeLogRun (args : Arguments) : History → Prop where
  /-- The accumulator is empty. -/
  | tooLong {h as} : Texts args.values h as → kMaxLength < (joined as).length →
      NativeLogRun args h
  | sent {h h' as msg} : Texts args.values h as → msg.chars = some (joined as) →
      Sends (some msg) h' → NativeLogRun args (h ++ h')

namespace Bridge

variable {rely : Exchange Answer → World → World → Prop}

theorem returns_v8String2JString {s : HeapString} {value : List UInt16 × Nat}
    (hvalue : value = (s.units ++ [0], s.tree.length)) : Returns rely (v8String2JString value)
      fun h r => h = [] ∧ ∃ msg, JObject.content r = some msg ∧ msg.chars = some s.units := by
  have hlen : s.units.length = s.tree.length := V8.Str.length_units s.wellFormed
  rw [hvalue, ← hlen]
  simp only [v8String2JString]
  split_ifs with hempty
  · refine (returns_newStringUTF _).consequence fun hp => ⟨hp.1, _, hp.2, ?_⟩
    rw [List.length_eq_zero_iff.mp hempty]
    rfl
  · refine (returns_newLocalRef _).then fun {r} hr => (Returns.pure _).consequence fun hp => ?_
    obtain ⟨rfl, rfl⟩ := hp
    refine ⟨rfl, _, congrArg some hr, ?_⟩
    rw [List.take_left]
    rfl

theorem returns_lookUpLogMethod : Returns rely lookUpLogMethod fun h found =>
    (h = [] ∧ found = true) ∨ ∃ name, h = [⟨.getStaticMethodID name, found⟩] := by
  refine (Returns.read _).skip fun known => ?_
  split_ifs
  · exact (Returns.pure _).consequence Or.inl
  · refine (Returns.ask _).bind fun {found h} hask => (Returns.modify _).skip fun _ => ?_
    refine (Returns.pure _).consequence fun hp => ?_
    obtain ⟨rfl, rfl⟩ := hp
    rw [List.append_nil]
    exact Or.inr ⟨_, hask⟩

theorem returns_sendLog (strMsg : JObject) :
    Returns rely (sendLog strMsg) fun h _ => Sends strMsg.content h := by
  refine (Returns.ask _).bind fun {found h₁} hclass => ?_
  subst hclass
  cases found with
  | false =>
      refine (Returns.pure _).consequence fun hp => ?_
      obtain ⟨rfl, rfl⟩ := hp
      exact Sends.noClass
  | true =>
      refine (returns_newLocalRef _).then fun {clazz} _ => ?_
      refine returns_lookUpLogMethod.bind fun {found h₂} hmethod => ?_
      cases found with
      | false =>
          refine (returns_deleteLocalRef _).skip fun _ => (Returns.pure _).consequence fun hp => ?_
          obtain ⟨rfl, rfl⟩ := hp
          obtain ⟨-, hfound⟩ | ⟨name, rfl⟩ := hmethod
          · cases hfound
          · exact Sends.noMethod
      | true =>
          refine (returns_newStringUTF _).then fun {strTag} htag => ?_
          refine (Returns.ask _).bind fun {flag h₃} hjava => ?_
          subst hjava
          refine (returns_deleteLocalRef _).skip fun _ => (returns_deleteLocalRef _).skip fun _ =>
            (returns_deleteLocalRef _).skip fun _ => (Returns.pure _).consequence fun hp => ?_
          obtain ⟨rfl, rfl⟩ := hp
          rw [htag]
          obtain ⟨rfl, -⟩ | ⟨name, rfl⟩ := hmethod
          · exact Sends.known
          · exact Sends.lookedUp

theorem returns_nativeLog (args : Arguments) :
    Returns rely (nativeLog args) fun h _ => NativeLogRun args h := by
  refine (returns_accumulate args.values _).bind fun {accumulator h₁} hp => ?_
  obtain ⟨as, has, hr⟩ := hp
  rcases hr with ⟨s, rfl, hs⟩ | ⟨rfl, hlong⟩
  · refine (Returns.read _).skip fun platform => ?_
    simp only [V8.Str.stringValue_eq platform.fill s.wellFormed]
    refine (returns_v8String2JString rfl).then fun {strMsg} hmsg => ?_
    obtain ⟨msg, hcontent, hchars⟩ := hmsg
    refine (returns_sendLog strMsg).bind fun hsent => (Returns.pure _).consequence fun hp => ?_
    rw [hp.1, List.append_nil]
    rw [hcontent] at hsent
    exact NativeLogRun.sent has (hchars.trans (congrArg some hs)) hsent
  · refine (Returns.pure _).consequence fun hp => ?_
    rw [hp.1, List.append_nil]
    exact NativeLogRun.tooLong has hlong

theorem steady_sendLog (strMsg : JObject) : Steady rely (sendLog strMsg) := by
  refine Steady.bind (Crashes.ask _) fun found => ?_
  split_ifs
  · refine (Steady.newLocalRef _).bind fun clazz => ?_
    have hlookUp : Steady rely lookUpLogMethod := by
      refine Steady.bind (Crashes.read _) fun known => ?_
      split_ifs
      · exact Steady.pure _
      · exact Steady.bind (Crashes.ask _) fun _ => Steady.bind (Crashes.modify _) fun _ =>
          Steady.pure _
    refine hlookUp.bind fun found => ?_
    split_ifs
    · exact (Steady.newStringUTF _).bind fun _ => Steady.bind (Crashes.ask _) fun _ =>
        (Steady.deleteLocalRef _).bind fun _ => (Steady.deleteLocalRef _).bind fun _ =>
          (Steady.deleteLocalRef _).bind fun _ => Steady.pure _
    · exact (Steady.deleteLocalRef _).bind fun _ => Steady.pure _
  · exact Steady.pure _

theorem crashes_nativeLog (args : Arguments) : Crashes rely (nativeLog args) fun h =>
    ∃ vs₁ vs₂ as, args.values = vs₁ ++ vs₂ ∧ Texts vs₁ h as ∧
      kMaxLength < (joined as).length := by
  refine Crashes.bind (returns_accumulate args.values _)
    ((crashes_accumulate args.values _).consequence fun hp => ?_) fun {accumulator h₁} _ =>
      Crashes.consequence ?_ False.elim
  · obtain ⟨vs₁, vs₂, as, hvs, has, hlong⟩ := hp
    exact ⟨vs₁, vs₂, as, hvs, has, hlong _ rfl⟩
  cases accumulator with
  | none => exact Crashes.pure _
  | some s =>
      refine Steady.bind (Crashes.read _) fun platform => ?_
      simp only [V8.Str.stringValue_eq platform.fill s.wellFormed, v8String2JString]
      refine Steady.bind ?_ fun strMsg => (steady_sendLog strMsg).bind fun _ => Steady.pure _
      split_ifs
      · exact Steady.newStringUTF _
      · exact (Steady.newLocalRef _).bind fun _ => Steady.pure _

end Bridge

/-! ## In every run -/

/-- The history tells the results of the conversions. -/
theorem Text.unique {site : TextSite} {v : Value} {h h' r r' : History} {a a' : Option HeapString}
    (ht : Text site v h a) (ht' : Text site v h' a') (heq : h ++ r = h' ++ r') :
    a = a' ∧ h = h' ∧ r = r' := by
  cases ht with
  | itself s =>
      cases ht' with
      | itself => exact ⟨rfl, rfl, heq⟩
      | asked _ hv => cases hv
  | asked a hv =>
      cases ht' with
      | itself => cases hv
      | asked a' _ =>
          injection heq with hx hr
          cases hx
          exact ⟨rfl, rfl, hr⟩

/-- The conversions of the first arguments are the first conversions. -/
theorem Texts.split {vs₁ : List Value} {h₁ : History} {as₁ : List (Option HeapString)}
    (hs : Texts vs₁ h₁ as₁) : ∀ {vs₂ : List Value} {h r r' : History}
      {as : List (Option HeapString)}, Texts (vs₁ ++ vs₂) h as → h₁ ++ r = h ++ r' →
        ∃ h₂ as₂, Texts vs₂ h₂ as₂ ∧ h = h₁ ++ h₂ ∧ as = as₁ ++ as₂ := by
  induction hs with
  | nil => exact fun hall _ => ⟨_, _, hall, rfl, rfl⟩
  | cons ht _ ih =>
      intro vs₂ h r r' as hall heq
      cases hall with
      | cons ht' hall =>
          rw [List.append_assoc, List.append_assoc] at heq
          obtain ⟨rfl, rfl, hrest⟩ := ht.unique ht' heq
          obtain ⟨h₂, as₂, hs₂, rfl, rfl⟩ := ih hall hrest
          exact ⟨h₂, as₂, hs₂, (List.append_assoc _ _ _).symm, rfl⟩

theorem Texts.unique {vs : List Value} {h₁ h r r' : History}
    {as₁ as : List (Option HeapString)} (hs : Texts vs h₁ as₁) (hall : Texts vs h as)
    (heq : h₁ ++ r = h ++ r') : h = h₁ ∧ as = as₁ := by
  rw [← List.append_nil vs] at hall
  obtain ⟨h₂, as₂, hs₂, rfl, rfl⟩ := hs.split hall heq
  cases hs₂
  exact ⟨List.append_nil _, List.append_nil _⟩

theorem Texts.noJavaCalls {vs : List Value} {h : History} {as : List (Option HeapString)}
    (hs : Texts vs h as) (rest : History) : javaCalls (h ++ rest) = javaCalls rest := by
  induction hs with
  | nil => rfl
  | cons ht _ ih =>
      rw [List.append_assoc]
      cases ht with
      | itself => exact ih
      | asked => exact ih

/-- In every run, a `nativeLog` that has returned began with the conversions of its
arguments. -/
theorem texts_of_returned {platform : Platform} {c : BridgeConfig} (hc : AnyRun platform c)
    {inv : BridgeInvocation} (hinv : inv ∈ c.log) {args : Arguments}
    (hentry : inv.entry = .nativeLog args) (hreturned : inv.outcome.isReturned = true) :
    ∃ h rest as, inv.history = h ++ rest ∧ Texts args.values h as := by
  have hr := runs_of_reachable hc hinv
  rw [hentry] at hr
  generalize inv.outcome = o at hr hreturned
  cases o with
  | crashed => cases hreturned
  | returned value =>
      have hrun := Bridge.returns_scoped _ (Bridge.returns_nativeLog args) _ _ _ _ hr
      generalize inv.history = history at hrun
      cases hrun with
      | tooLong has _ => exact ⟨_, [], _, (List.append_nil _).symm, has⟩
      | sent has _ _ => exact ⟨_, _, _, rfl, has⟩

/-- In every run, `nativeLog` gives Java the texts of its arguments one after the other
when all conversions succeed, nothing is missing and the texts fit into one string. -/
theorem logs_texts {platform : Platform} {c : BridgeConfig} (hc : AnyRun platform c)
    {inv : BridgeInvocation} (hinv : inv ∈ c.log) {args : Arguments}
    (hentry : inv.entry = .nativeLog args) {h rest : History} {texts : List HeapString}
    (hhistory : inv.history = h ++ rest) (htexts : Texts args.values h (texts.map some))
    (hlen : (texts.flatMap HeapString.units).length ≤ kMaxLength)
    (hfound : ∀ x ∈ inv.history, Found x) : ∃ msg flag,
      javaCalls inv.history = [(.logD, none, [some jsLog, some msg], flag)] ∧
        msg.chars = some (texts.flatMap HeapString.units) := by
  have hr := runs_of_reachable hc hinv
  rw [hentry, hhistory] at hr
  rw [hhistory] at hfound ⊢
  rw [← joined_map_some] at hlen ⊢
  generalize inv.outcome = o at hr
  cases o with
  | crashed =>
      obtain ⟨vs₁, vs₂, as, hvs, has, hlong⟩ :=
        Bridge.crashes_scoped _ (Bridge.crashes_nativeLog args) _ _ _ hr
      -- the texts that were too many are some of those that are not
      rw [hvs] at htexts
      obtain ⟨h₂, as₂, -, -, has₂⟩ :=
        has.split (r := []) htexts (List.append_nil _)
      rw [has₂, joined_append, List.length_append] at hlen
      exact absurd (Nat.le_trans (Nat.le_add_right _ _) hlen) (Nat.not_le.mpr hlong)
  | returned value =>
      have hrun := Bridge.returns_scoped _ (Bridge.returns_nativeLog args) _ _ _ _ hr
      generalize hall : h ++ rest = history at hrun hfound ⊢
      cases hrun with
      | tooLong has hlong =>
          obtain ⟨-, rfl⟩ := has.unique (r := []) htexts ((List.append_nil _).trans hall.symm)
          exact absurd hlen (Nat.not_le.mpr hlong)
      | sent has hchars hsends =>
          obtain ⟨-, rfl⟩ := has.unique htexts hall.symm
          obtain ⟨flag, hcalls⟩ :=
            hsends.javaCalls fun x hx => hfound x (List.mem_append_right _ hx)
          rw [has.noJavaCalls]
          exact ⟨_, flag, hcalls, hchars⟩

/-- `nativeLog("\uD83D", "\uDE00")` during a call of `execJS`. -/
theorem logs_texts_pair :
    let lead : HeapString := ⟨.seq (.twoByte [0xD83D]), trivial, by decide⟩
    let trail : HeapString := ⟨.seq (.twoByte [0xDE00]), trivial, by decide⟩
    ∃ msg flag, javaCalls ((body (.nativeLog ⟨[.string lead, .string trail]⟩)
      (.calling .plain)).play Question.usual).1 =
        [(.logD, none, [some jsLog, some msg], flag)] ∧
          msg.chars = some ([lead, trail].flatMap HeapString.units) := by
  intro lead trail
  obtain ⟨c, hc, hinv⟩ :=
    anyRun_play (.nativeLog ⟨[.string lead, .string trail]⟩) Question.usual
  have husual : ∀ x ∈ ((body (.nativeLog ⟨[.string lead, .string trail]⟩)
      (.calling .plain)).play Question.usual).1, Found x :=
    fun x hx => found_of_usual (answer_of_mem_play Question.usual hx)
  have htexts : Texts [.string lead, .string trail] [] ([lead, trail].map some) :=
    Texts.cons (Text.itself lead) (Texts.cons (Text.itself trail) Texts.nil)
  generalize (body (.nativeLog ⟨[.string lead, .string trail]⟩) (.calling .plain)).play
    Question.usual = run at hinv husual ⊢
  have hlen : ([lead, trail].flatMap HeapString.units).length ≤ kMaxLength := by decide
  have hlogs := logs_texts hc hinv rfl (List.nil_append _).symm htexts hlen husual
  dsimp only at hlogs
  exact hlogs

end WeexBridge
