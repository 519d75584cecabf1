/-
# `Reentrant` — programs whose environment calls back

A program owns a state.  It may ask its environment a question, and resumes with
the answer; a crash ends everything.  Between a question and its answer the
environment may invoke the program again, through any of its entry points and to
any depth, and these inner invocations change the same state.

    Runs       one invocation on its own: the questions it asks, the answers it
               gets, and the state it finds when an answer comes, which is any
               state that the relation `rely` allows
    Machine    all invocations together: a stack of pending ones over one state
    runs_log   every invocation the machine finishes is a run in the first sense,
               when each entry point restores what the pending questions rely on

`Triple` is the logic of pre- and postconditions for programs that return, `Sound`
that of programs that do not crash while the answers are good.
-/
import Mathlib.Data.List.Basic
import Mathlib.Tactic.Common

namespace Reentrant

/-- A question with its answer. -/
structure Exchange {Q : Type} (A : Q → Type) where
  question : Q
  answer : A question

/-- What an invocation leaves behind. -/
inductive Outcome (α : Type) where
  | returned (value : α)
  | crashed
  deriving DecidableEq, Repr

def Outcome.isReturned {α : Type} : Outcome α → Bool
  | .returned _ => true
  | .crashed => false

/-- A program under way. -/
inductive Result {Q : Type} (A : Q → Type) (S α : Type) where
  | done (value : α) (s : S)
  | crash (s : S)
  | ask (question : Q) (s : S) (resume : A question → S → Result A S α)

/-- Where it has stopped. -/
def Result.state {Q : Type} {A : Q → Type} {S α : Type} : Result A S α → S
  | .done _ s => s
  | .crash s => s
  | .ask _ s _ => s

def Result.isCrash {Q : Type} {A : Q → Type} {S α : Type} : Result A S α → Bool
  | .crash _ => true
  | _ => false

/-- A program, from the state it is started in. -/
def Program {Q : Type} (A : Q → Type) (S α : Type) : Type := S → Result A S α

variable {Q : Type} {A : Q → Type} {S α β : Type}

def Result.bind : Result A S α → (α → Program A S β) → Result A S β
  | .done value s, f => f value s
  | .crash s, _ => .crash s
  | .ask question s resume, f => .ask question s fun a s' => (resume a s').bind f

instance : Monad (Program A S) where
  pure value := fun s => .done value s
  bind p f := fun s => (p s).bind f

namespace Program

def crash : Program A S α := fun s => .crash s

/-- Reads the state. -/
def read (f : S → α) : Program A S α := fun s => .done (f s) s

def modify (f : S → S) : Program A S Unit := fun s => .done () (f s)

def ask (question : Q) : Program A S (A question) := fun s => .ask question s .done

@[simp] theorem bind_apply (p : Program A S α) (f : α → Program A S β) (s : S) :
    (p >>= f) s = (p s).bind f := rfl

theorem read_bind (f : S → α) (g : α → Program A S β) (s : S) :
    (read f >>= g) s = g (f s) s := rfl

end Program

/-! ## One invocation -/

/-- `r` asks the questions of `h`, gets their answers, and ends with `o` in the
state `t`.  When an answer comes the state is any that `rely` allows. -/
def Runs (rely : Exchange A → S → S → Prop) :
    Result A S α → List (Exchange A) → Outcome α → S → Prop
  | .done value s, h, o, t => h = [] ∧ o = .returned value ∧ t = s
  | .crash s, h, o, t => h = [] ∧ o = .crashed ∧ t = s
  | .ask question s resume, h, o, t =>
      ∃ a s' rest, h = ⟨question, a⟩ :: rest ∧ rely ⟨question, a⟩ s s' ∧
        Runs rely (resume a s') rest o t

section
variable {rely : Exchange A → S → S → Prop} {h : List (Exchange A)} {t : S}

/-- A run of a sequence: a run of the first part and then one of the second, or
a run of the first that crashes. -/
theorem runs_bind {f : α → Program A S β} {o : Outcome β} : ∀ {r : Result A S α}
    {h : List (Exchange A)}, Runs rely (r.bind f) h o t ↔
      (∃ value s h₁ h₂, h = h₁ ++ h₂ ∧ Runs rely r h₁ (.returned value) s ∧
        Runs rely (f value s) h₂ o t) ∨
      (o = .crashed ∧ Runs rely r h .crashed t)
  | .done value s, h => by
      constructor
      · intro hr
        exact Or.inl ⟨value, s, [], h, rfl, ⟨rfl, rfl, rfl⟩, hr⟩
      · rintro (⟨value', s', h₁, h₂, rfl, ⟨rfl, hv, rfl⟩, hr⟩ | ⟨-, -, hc, -⟩)
        · cases hv
          exact hr
        · cases hc
  | .crash s, h => by
      constructor
      · rintro ⟨rfl, rfl, rfl⟩
        exact Or.inr ⟨rfl, rfl, rfl, rfl⟩
      · rintro (⟨value', s', h₁, h₂, -, ⟨-, hv, -⟩, -⟩ | ⟨rfl, rfl, -, rfl⟩)
        · cases hv
        · exact ⟨rfl, rfl, rfl⟩
  | .ask question s resume, h => by
      constructor
      · rintro ⟨a, s', rest, rfl, hrely, hr⟩
        rcases runs_bind.mp hr with ⟨value, s₁, h₁, h₂, rfl, h₁', h₂'⟩ | ⟨rfl, hc⟩
        · exact Or.inl ⟨value, s₁, _ :: h₁, h₂, rfl, ⟨a, s', h₁, rfl, hrely, h₁'⟩, h₂'⟩
        · exact Or.inr ⟨rfl, a, s', rest, rfl, hrely, hc⟩
      · rintro (⟨value, s₁, h₁, h₂, rfl, ⟨a, s', rest, rfl, hrely, hr⟩, h₂'⟩ |
          ⟨rfl, a, s', rest, rfl, hrely, hr⟩)
        · exact ⟨a, s', rest ++ h₂, rfl, hrely,
            runs_bind.mpr (Or.inl ⟨value, s₁, rest, h₂, rfl, hr, h₂'⟩)⟩
        · exact ⟨a, s', rest, rfl, hrely, runs_bind.mpr (Or.inr ⟨rfl, hr⟩)⟩

/-- A weaker `rely` allows more runs. -/
theorem Runs.mono {rely' : Exchange A → S → S → Prop}
    (hle : ∀ {x s s'}, rely x s s' → rely' x s s') {o : Outcome α} :
    ∀ {r : Result A S α} {h : List (Exchange A)}, Runs rely r h o t → Runs rely' r h o t
  | .done _ _, _, hr => hr
  | .crash _, _, hr => hr
  | .ask _ _ _, _, ⟨a, s', rest, hh, hrely, hr⟩ => ⟨a, s', rest, hh, hle hrely, hr.mono hle⟩

end

/-! ## Part of an invocation -/

/-- After the exchanges of `h`, `r` has become `r'`. -/
inductive Reaches (rely : Exchange A → S → S → Prop) (r : Result A S α) :
    List (Exchange A) → Result A S α → Prop where
  | start : Reaches rely r [] r
  | answer {h question s resume a s'} : Reaches rely r h (.ask question s resume) →
      rely ⟨question, a⟩ s s' → Reaches rely r (h ++ [⟨question, a⟩]) (resume a s')

theorem Reaches.runs {rely : Exchange A → S → S → Prop} {r r' : Result A S α}
    {h : List (Exchange A)} (hr : Reaches rely r h r') :
    ∀ {k : List (Exchange A)} {o : Outcome α} {t : S}, Runs rely r' k o t →
      Runs rely r (h ++ k) o t := by
  induction hr with
  | start => exact fun hruns => hruns
  | @answer h question s resume a s' _ hrely ih =>
      intro k o t hruns
      rw [List.append_assoc]
      exact ih ⟨a, s', k, rfl, hrely, hruns⟩

/-! ## Pre- and postconditions -/

/-- Wherever `r` asks or crashes `inv` holds, and wherever it returns `post`. -/
def Meets (rely : Exchange A → S → S → Prop) (inv : S → Prop) (post : α → S → Prop) :
    Result A S α → Prop
  | .done value s => post value s
  | .crash s => inv s
  | .ask question s resume =>
      inv s ∧ ∀ a s', rely ⟨question, a⟩ s s' → Meets rely inv post (resume a s')

/-- Started where `pre` holds, `p` returns only where `post` holds, and asks and
crashes only where `inv` holds. -/
def Triple (rely : Exchange A → S → S → Prop) (inv pre : S → Prop) (p : Program A S α)
    (post : α → S → Prop) : Prop :=
  ∀ s, pre s → Meets rely inv post (p s)

section
variable {rely : Exchange A → S → S → Prop} {inv : S → Prop}

theorem Meets.mono {post post' : α → S → Prop} (h : ∀ {value s}, post value s → post' value s) :
    ∀ {r : Result A S α}, Meets rely inv post r → Meets rely inv post' r
  | .done _ _, hr => h hr
  | .crash _, hr => hr
  | .ask _ _ _, hr => ⟨hr.1, fun a s' hrely => (hr.2 a s' hrely).mono h⟩

theorem Meets.bind {post : α → S → Prop} {post' : β → S → Prop} {f : α → Program A S β}
    (hf : ∀ {value s}, post value s → Meets rely inv post' (f value s)) :
    ∀ {r : Result A S α}, Meets rely inv post r → Meets rely inv post' (r.bind f)
  | .done _ _, hr => hf hr
  | .crash _, hr => hr
  | .ask _ _ _, hr => ⟨hr.1, fun a s' hrely => (hr.2 a s' hrely).bind hf⟩

/-- Where nothing is asked for, nothing has to be shown. -/
theorem Meets.free {post : α → S → Prop} (hinv : ∀ s, inv s) (hpost : ∀ value s, post value s) :
    ∀ r : Result A S α, Meets rely inv post r
  | .done value s => hpost value s
  | .crash s => hinv s
  | .ask _ s resume => ⟨hinv s, fun a s' _ => Meets.free hinv hpost (resume a s')⟩

/-- What is met is met after any part of the run. -/
theorem Meets.of_reaches {post : α → S → Prop} {r r' : Result A S α} {h : List (Exchange A)}
    (hr : Reaches rely r h r') (hm : Meets rely inv post r) : Meets rely inv post r' := by
  induction hr with
  | start => exact hm
  | answer _ hrely ih => exact ih.2 _ _ hrely

/-- A run that returns ends where the postcondition holds. -/
theorem Meets.of_runs {post : α → S → Prop} {value : α} {t : S} :
    ∀ {r : Result A S α} {h : List (Exchange A)}, Meets rely inv post r →
      Runs rely r h (.returned value) t → post value t
  | .done _ _, _, hm, ⟨_, hv, ht⟩ => by
      cases hv
      cases ht
      exact hm
  | .crash _, _, _, ⟨_, hv, _⟩ => nomatch hv
  | .ask _ _ _, _, hm, ⟨a, s', _, _, hrely, hr⟩ => (hm.2 a s' hrely).of_runs hr

theorem Triple.pure {post : α → S → Prop} (value : α) :
    Triple rely inv (post value) (pure value) post :=
  fun _ hs => hs

theorem Triple.bind {pre : S → Prop} {p : Program A S α} {mid : α → S → Prop}
    {f : α → Program A S β} {post : β → S → Prop} (hp : Triple rely inv pre p mid)
    (hf : ∀ value, Triple rely inv (mid value) (f value) post) :
    Triple rely inv pre (p >>= f) post :=
  fun s hs => (hp s hs).bind fun {value t} hmid => hf value t hmid

theorem Triple.modify {f : S → S} {post : Unit → S → Prop} :
    Triple rely inv (fun s => post () (f s)) (Program.modify f) post :=
  fun _ hs => hs

theorem Triple.read {f : S → α} {post : α → S → Prop} :
    Triple rely inv (fun s => post (f s) s) (Program.read f) post :=
  fun _ hs => hs

theorem Triple.crash {post : α → S → Prop} : Triple rely inv inv Program.crash post :=
  fun _ hs => hs

theorem Triple.ask {question : Q} {post : A question → S → Prop} :
    Triple rely inv (fun s => inv s ∧ ∀ a s', rely ⟨question, a⟩ s s' → post a s')
      (Program.ask question) post :=
  fun _ hs => hs

theorem Triple.consequence {pre pre' : S → Prop} {p : Program A S α} {post post' : α → S → Prop}
    (hp : Triple rely inv pre p post) (hpre : ∀ {s}, pre' s → pre s)
    (hpost : ∀ {value s}, post value s → post' value s) : Triple rely inv pre' p post' :=
  fun s hs => (hp s (hpre hs)).mono hpost

theorem Triple.strengthen {pre pre' : S → Prop} {p : Program A S α} {post : α → S → Prop}
    (hp : Triple rely inv pre p post) (h : ∀ {s}, pre' s → pre s) :
    Triple rely inv pre' p post :=
  hp.consequence h id

theorem Triple.free {pre : S → Prop} (p : Program A S α) :
    Triple rely (fun _ => True) pre p fun _ _ => True :=
  fun s _ => Meets.free (fun _ => trivial) (fun _ _ => trivial) (p s)

end

/-! ## Histories -/

/-- Every run of `p` from a state where `pre` holds has a history, an outcome and
a final state that `post` holds of. -/
def Traces (rely : Exchange A → S → S → Prop) (pre : S → Prop) (p : Program A S α)
    (post : List (Exchange A) → Outcome α → S → Prop) : Prop :=
  ∀ s, pre s → ∀ h o t, Runs rely (p s) h o t → post h o t

section
variable {rely : Exchange A → S → S → Prop} {pre : S → Prop}

theorem Traces.pure (value : α) : Traces rely pre (Pure.pure value : Program A S α)
    fun h o t => h = [] ∧ o = .returned value ∧ pre t := by
  intro s hs h o t hr
  obtain ⟨rfl, rfl, rfl⟩ := hr
  exact ⟨rfl, rfl, hs⟩

theorem Traces.read (f : S → α) : Traces rely pre (Program.read f : Program A S α)
    fun h o t => h = [] ∧ o = .returned (f t) ∧ pre t := by
  intro s hs h o t hr
  obtain ⟨rfl, rfl, rfl⟩ := hr
  exact ⟨rfl, rfl, hs⟩

theorem Traces.modify {f : S → S} {R : S → Prop} (hf : ∀ {s}, pre s → R (f s)) :
    Traces rely pre (Program.modify f : Program A S Unit)
      fun h o t => h = [] ∧ o = .returned () ∧ R t := by
  intro s hs h o t hr
  obtain ⟨rfl, rfl, rfl⟩ := hr
  exact ⟨rfl, rfl, hf hs⟩

theorem Traces.crash : Traces rely pre (Program.crash : Program A S α)
    fun h o t => h = [] ∧ o = .crashed ∧ pre t := by
  intro s hs h o t hr
  obtain ⟨rfl, rfl, rfl⟩ := hr
  exact ⟨rfl, rfl, hs⟩

theorem Traces.ask {question : Q} {R : A question → S → Prop}
    (hrely : ∀ {a s s'}, rely ⟨question, a⟩ s s' → pre s → R a s') :
    Traces rely pre (Program.ask question)
      fun h o t => ∃ a, h = [⟨question, a⟩] ∧ o = .returned a ∧ R a t := by
  intro s hs h o t hr
  obtain ⟨a, s', rest, rfl, hx, rfl, rfl, rfl⟩ := hr
  exact ⟨a, rfl, rfl, hrely hx hs⟩

end

/-- Every run of `p` that returns has a history and a value that `post` holds of. -/
def Returns (rely : Exchange A → S → S → Prop) (p : Program A S α)
    (post : List (Exchange A) → α → Prop) : Prop :=
  ∀ s h value t, Runs rely (p s) h (.returned value) t → post h value

/-- Every run of `p` that crashes has a history that `post` holds of. -/
def Crashes (rely : Exchange A → S → S → Prop) (p : Program A S α)
    (post : List (Exchange A) → Prop) : Prop :=
  ∀ s h t, Runs rely (p s) h .crashed t → post h

section
variable {rely : Exchange A → S → S → Prop}

theorem Traces.returns {p : Program A S α} {post : List (Exchange A) → Outcome α → S → Prop}
    {post' : List (Exchange A) → α → Prop} (hp : Traces rely (fun _ => True) p post)
    (hpost : ∀ {h v t}, post h (.returned v) t → post' h v) :
    Returns rely p post' :=
  fun s h _ t hr => hpost (hp s trivial h _ t hr)

theorem Traces.crashes {p : Program A S α} {post : List (Exchange A) → Outcome α → S → Prop}
    {post' : List (Exchange A) → Prop} (hp : Traces rely (fun _ => True) p post)
    (hpost : ∀ {h t}, post h .crashed t → post' h) : Crashes rely p post' :=
  fun s h t hr => hpost (hp s trivial h _ t hr)

theorem Returns.pure (value : α) : Returns rely (Pure.pure value : Program A S α)
    fun h v => h = [] ∧ v = value := by
  refine (Traces.pure value).returns fun hv => ?_
  obtain ⟨hh, hv, -⟩ := hv
  cases hv
  exact ⟨hh, rfl⟩

theorem Returns.read (f : S → α) : Returns rely (Program.read f : Program A S α)
    fun h _ => h = [] :=
  (Traces.read f).returns And.left

theorem Returns.modify (f : S → S) : Returns rely (Program.modify f : Program A S Unit)
    fun h _ => h = [] :=
  (Traces.modify (R := fun _ => True) fun _ => trivial).returns And.left

theorem Returns.crash {post : List (Exchange A) → α → Prop} :
    Returns rely (Program.crash : Program A S α) post :=
  Traces.crash.returns fun hv => nomatch hv.2.1

theorem Returns.ask (question : Q) :
    Returns rely (Program.ask question) fun h a => h = [⟨question, a⟩] := by
  refine (Traces.ask fun _ _ => trivial).returns fun hv => ?_
  obtain ⟨a, hh, hv, -⟩ := hv
  cases hv
  exact hh

theorem Returns.consequence {p : Program A S α} {post post' : List (Exchange A) → α → Prop}
    (hp : Returns rely p post) (hpost : ∀ {h value}, post h value → post' h value) :
    Returns rely p post' :=
  fun s h value t hr => hpost (hp s h value t hr)

theorem Returns.bind {p : Program A S α} {f : α → Program A S β}
    {mid : List (Exchange A) → α → Prop} {post : List (Exchange A) → β → Prop}
    (hp : Returns rely p mid)
    (hf : ∀ {value h₁}, mid h₁ value → Returns rely (f value) fun h₂ v => post (h₁ ++ h₂) v) :
    Returns rely (p >>= f) post := by
  intro s h v t hr
  rcases runs_bind.mp hr with ⟨value, s₁, h₁, h₂, rfl, hr₁, hr₂⟩ | ⟨ho, -⟩
  · exact hf (hp s h₁ value s₁ hr₁) s₁ h₂ v t hr₂
  · cases ho

/-- A part that asks nothing. -/
theorem Returns.then {p : Program A S α} {f : α → Program A S β} {good : α → Prop}
    {post : List (Exchange A) → β → Prop} (hp : Returns rely p fun h v => h = [] ∧ good v)
    (hf : ∀ {value}, good value → Returns rely (f value) post) : Returns rely (p >>= f) post := by
  refine hp.bind fun hv => ?_
  obtain ⟨rfl, hgood⟩ := hv
  exact hf hgood

/-- A part that asks nothing, whose value is of no interest. -/
theorem Returns.skip {p : Program A S α} {f : α → Program A S β}
    {post : List (Exchange A) → β → Prop} (hp : Returns rely p fun h _ => h = [])
    (hf : ∀ value, Returns rely (f value) post) : Returns rely (p >>= f) post := by
  refine hp.bind fun {value h₁} hv => ?_
  cases hv
  exact hf value

theorem Crashes.pure (value : α) {post : List (Exchange A) → Prop} :
    Crashes rely (Pure.pure value : Program A S α) post :=
  (Traces.pure value).crashes fun hv => nomatch hv.2.1

theorem Crashes.read (f : S → α) {post : List (Exchange A) → Prop} :
    Crashes rely (Program.read f : Program A S α) post :=
  (Traces.read f).crashes fun hv => nomatch hv.2.1

theorem Crashes.modify (f : S → S) {post : List (Exchange A) → Prop} :
    Crashes rely (Program.modify f : Program A S Unit) post :=
  (Traces.modify (R := fun _ => True) fun _ => trivial).crashes fun hv => nomatch hv.2.1

theorem Crashes.crash : Crashes rely (Program.crash : Program A S α) fun h => h = [] :=
  Traces.crash.crashes And.left

theorem Crashes.ask (question : Q) {post : List (Exchange A) → Prop} :
    Crashes rely (Program.ask question) post := by
  refine (Traces.ask fun _ _ => trivial).crashes fun hv => ?_
  obtain ⟨a, -, ho, -⟩ := hv
  cases ho

theorem Crashes.consequence {p : Program A S α} {post post' : List (Exchange A) → Prop}
    (hp : Crashes rely p post) (hpost : ∀ {h}, post h → post' h) : Crashes rely p post' :=
  fun s h t hr => hpost (hp s h t hr)

theorem Crashes.bind {p : Program A S α} {f : α → Program A S β}
    {M : List (Exchange A) → α → Prop} {post : List (Exchange A) → Prop}
    (hp : Returns rely p M) (hc : Crashes rely p post)
    (hf : ∀ {value h₁}, M h₁ value → Crashes rely (f value) fun h₂ => post (h₁ ++ h₂)) :
    Crashes rely (p >>= f) post := by
  intro s h t hr
  rcases runs_bind.mp hr with ⟨value, s₁, h₁, h₂, rfl, hr₁, hr₂⟩ | ⟨-, hr₁⟩
  · exact hf (hp s h₁ value s₁ hr₁) s₁ h₂ t hr₂
  · exact hc s h t hr₁

end

/-- Started where `pre` holds, `p` crashes only after an exchange that is not good. -/
def Sound (rely : Exchange A → S → S → Prop) (good : Exchange A → Prop) (pre : S → Prop)
    (p : Program A S α) : Prop :=
  ∀ s, pre s → ∀ h t, Runs rely (p s) h .crashed t → ¬ ∀ x ∈ h, good x

section
variable {rely : Exchange A → S → S → Prop} {good : Exchange A → Prop} {pre : S → Prop}

theorem Sound.of_crashes {p : Program A S α} (hp : Crashes rely p fun _ => False) :
    Sound rely good pre p :=
  fun s _ h t hr => (hp s h t hr).elim

theorem Sound.pure (value : α) : Sound rely good pre (Pure.pure value : Program A S α) :=
  .of_crashes (Crashes.pure value)

theorem Sound.read (f : S → α) : Sound rely good pre (Program.read f : Program A S α) :=
  .of_crashes (Crashes.read f)

theorem Sound.modify (f : S → S) : Sound rely good pre (Program.modify f : Program A S Unit) :=
  .of_crashes (Crashes.modify f)

theorem Sound.ask (question : Q) : Sound rely good pre (Program.ask question) :=
  .of_crashes (Crashes.ask question)

theorem Sound.consequence {good' : Exchange A → Prop} {p : Program A S α}
    (hp : Sound rely good pre p) (h : ∀ {x}, good' x → good x) : Sound rely good' pre p :=
  fun s hs k t hr hk => hp s hs k t hr fun x hx => h (hk x hx)

theorem Sound.mono_pre {pre' : S → Prop} {p : Program A S α} (hp : Sound rely good pre p)
    (h : ∀ {s}, pre' s → pre s) : Sound rely good pre' p :=
  fun s hs => hp s (h hs)

/-- After a part whose exchanges are good. -/
theorem Sound.bind {mid : S → Prop} {p : Program A S α} {f : α → Program A S β}
    {M : List (Exchange A) → α → Prop} (hpre : Triple rely (fun _ => True) pre p fun _ => mid)
    (hr : Returns rely p M) (hp : Sound rely good pre p)
    (hf : ∀ {value h₁}, M h₁ value → (∀ x ∈ h₁, good x) → Sound rely good mid (f value)) :
    Sound rely good pre (p >>= f) := by
  intro s hs h t hruns hgood
  rcases runs_bind.mp hruns with ⟨value, s₁, h₁, h₂, rfl, hruns₁, hruns₂⟩ | ⟨-, hruns₁⟩
  · have hgood₁ : ∀ x ∈ h₁, good x := fun x hx => hgood x (List.mem_append_left _ hx)
    have hgood₂ : ∀ x ∈ h₂, good x := fun x hx => hgood x (List.mem_append_right _ hx)
    exact hf (hr s h₁ value s₁ hruns₁) hgood₁ s₁ ((hpre s hs).of_runs hruns₁) h₂ t hruns₂ hgood₂
  · exact hp s hs h t hruns₁ hgood

/-- Of what returns nothing needs to be known. -/
theorem Sound.bind_any {p : Program A S α} {f : α → Program A S β}
    (hpre : Triple rely (fun _ => True) pre p fun _ => pre) (hp : Sound rely good pre p)
    (hf : ∀ value, Sound rely good pre (f value)) : Sound rely good pre (p >>= f) :=
  Sound.bind (M := fun _ _ => True) hpre (fun _ _ _ _ _ => trivial) hp fun _ _ => hf _

end

/-! ## All invocations together -/

/-- A pending invocation. -/
structure Frame (A : Q → Type) (S E α : Type) where
  entry : E
  start : S
  history : List (Exchange A)
  question : Q
  asked : S
  resume : A question → S → Result A S α

/-- A finished one. -/
structure Invocation (A : Q → Type) (S E α : Type) where
  entry : E
  start : S
  history : List (Exchange A)
  outcome : Outcome α
  final : S

/-- The state, the pending invocations with the innermost first, and the finished
ones with the latest first. -/
structure Config (A : Q → Type) (S E α : Type) where
  state : S
  stack : List (Frame A S E α)
  log : List (Invocation A S E α)
  crashed : Bool

/-- What the environment does next. -/
inductive Move (A : Q → Type) (E : Type) where
  | enter (entry : E)
  | answer (x : Exchange A)

section Machine
variable {E : Type}

/-- An invocation runs on until it asks or ends. -/
def settle (c : Config A S E α) (entry : E) (start : S) (history : List (Exchange A)) :
    Result A S α → Config A S E α
  | .done value s =>
      { c with state := s, log := ⟨entry, start, history, .returned value, s⟩ :: c.log }
  | .crash s =>
      { c with
        state := s
        log := ⟨entry, start, history, .crashed, s⟩ :: c.log
        crashed := true }
  | .ask question s resume =>
      { c with state := s, stack := ⟨entry, start, history, question, s, resume⟩ :: c.stack }

theorem settle_state (c : Config A S E α) (entry : E) (start : S) (history : List (Exchange A))
    (r : Result A S α) : (settle c entry start history r).state = r.state := by
  cases r <;> rfl

theorem settle_crashed {c : Config A S E α} (hc : c.crashed = false) (entry : E) (start : S)
    (history : List (Exchange A)) (r : Result A S α) :
    (settle c entry start history r).crashed = r.isCrash := by
  cases r with
  | done value s => exact hc
  | crash s => rfl
  | ask question s resume => exact hc

/-- One move: the environment invokes an entry point, or answers the question of
the innermost pending invocation. -/
inductive Step (body : E → Program A S α) :
    Config A S E α → Move A E → Config A S E α → Prop where
  | enter {c : Config A S E α} (entry : E) : c.crashed = false →
      Step body c (.enter entry) (settle c entry c.state [] (body entry c.state))
  | answer {c : Config A S E α} {f : Frame A S E α} {rest : List (Frame A S E α)}
      (a : A f.question) : c.crashed = false → c.stack = f :: rest →
      Step body c (.answer ⟨f.question, a⟩)
        (settle { c with stack := rest } f.entry f.start (f.history ++ [⟨f.question, a⟩])
          (f.resume a c.state))

/-- Nothing has been invoked yet. -/
def initial (s : S) : Config A S E α := ⟨s, [], [], false⟩

/-- What runs lead to whose every move is one that `guard` admits. -/
inductive Reachable (body : E → Program A S α) (guard : Config A S E α → Move A E → Prop)
    (s₀ : S) : Config A S E α → Prop where
  | initial : Reachable body guard s₀ (initial s₀)
  | step {c c' : Config A S E α} {m : Move A E} : Reachable body guard s₀ c → guard c m →
      Step body c m c' → Reachable body guard s₀ c'

/-! ### Rely and guarantee -/

/-- What the pending questions rely on: `keeps q` relates the state in which `q`
was asked to those in which its answer may come, `base` the first state to those
between two outermost invocations.  An entry point that `admits` lets in while
`q` is pending restores what `q` relies on when it returns, and likewise `base`.
`safe` holds wherever the program stops. -/
structure Contract (body : E → Program A S α) where
  keeps : Q → S → S → Prop
  base : S → S → Prop
  safe : S → Prop
  valid : Exchange A → Prop
  admits : Q → E → Prop
  admitted : S → E → Prop
  keeps_refl : ∀ q s, keeps q s s
  keeps_trans : ∀ {q s₁ s₂ s₃}, keeps q s₁ s₂ → keeps q s₂ s₃ → keeps q s₁ s₃
  base_refl : ∀ s, base s s
  base_trans : ∀ {s₁ s₂ s₃}, base s₁ s₂ → base s₂ s₃ → base s₁ s₃
  keeps_body : ∀ {q e s}, admits q e → admitted s e → safe s →
    Meets (fun x s s' => (valid x ∧ safe s' ∧ keeps x.question s s') ∧ keeps q s s') safe
      (fun _ t => keeps q s t) (body e s)
  base_body : ∀ {e s}, admitted s e → safe s →
    Meets (fun x s s' => (valid x ∧ safe s' ∧ keeps x.question s s') ∧ base s s') safe
      (fun _ t => base s t ∧ safe t) (body e s)

namespace Contract
variable {body : E → Program A S α} (C : Contract body)

/-- What an invocation relies on by itself. -/
def rely (x : Exchange A) (s s' : S) : Prop :=
  C.valid x ∧ C.safe s' ∧ C.keeps x.question s s'

/-- The moves of the runs the contract is about. -/
def Admits (c : Config A S E α) : Move A E → Prop
  | .enter entry => C.admitted c.state entry ∧ ∀ f ∈ c.stack, C.admits f.question entry
  | .answer x => C.valid x

/-- The relations that hold at and below a stack: one for each pending question,
and `base`. -/
inductive Keeps : List (Frame A S E α) → (S → S → Prop) → Prop where
  | base {stack} : Keeps stack C.base
  | question {stack} {f : Frame A S E α} : f ∈ stack → Keeps stack (C.keeps f.question)

theorem Keeps.cons {stack : List (Frame A S E α)} {R : S → S → Prop} (h : C.Keeps stack R)
    (f : Frame A S E α) : C.Keeps (f :: stack) R := by
  cases h with
  | base => exact Keeps.base
  | question hf => exact Keeps.question (List.mem_cons_of_mem f hf)

theorem Keeps.refl {stack : List (Frame A S E α)} {R : S → S → Prop} (h : C.Keeps stack R)
    (s : S) : R s s := by
  cases h with
  | base => exact C.base_refl s
  | question => exact C.keeps_refl _ s

theorem Keeps.trans {stack : List (Frame A S E α)} {R : S → S → Prop} (h : C.Keeps stack R)
    {s₁ s₂ s₃ : S} : R s₁ s₂ → R s₂ s₃ → R s₁ s₃ := by
  cases h with
  | base => exact C.base_trans
  | question => exact C.keeps_trans

/-- A pending invocation is a run so far, for each relation of the stack below. -/
def Pending (entry : E) (start : S) (h : List (Exchange A)) (r : Result A S α)
    (below : List (Frame A S E α)) : Prop :=
  C.admitted start entry ∧ (∀ f ∈ below, C.admits f.question entry) ∧ C.safe start ∧
    Reaches C.rely (body entry start) h r ∧
    ∀ R, C.Keeps below R →
      Reaches (fun x s s' => C.rely x s s' ∧ R s s') (body entry start) h r

/-- The invariant of the stack, under the state `s`. -/
def StackOk (s₀ : S) : S → List (Frame A S E α) → Prop
  | s, [] => C.base s₀ s
  | s, f :: below =>
      (∀ R, C.Keeps (f :: below) R → R f.asked s) ∧
      C.Pending f.entry f.start f.history (.ask f.question f.asked f.resume) below ∧
      StackOk s₀ f.start below

/-- What the machine knows of a finished invocation. -/
def Finished (i : Invocation A S E α) : Prop :=
  C.admitted i.start i.entry ∧ C.safe i.start ∧
    Runs C.rely (body i.entry i.start) i.history i.outcome i.final

structure ConfigOk (s₀ : S) (c : Config A S E α) : Prop where
  safe : C.safe c.state
  stack : c.crashed = false → C.StackOk s₀ c.state c.stack
  log : ∀ i ∈ c.log, C.Finished i

/-- Returning restores what the stack below relies on. -/
theorem stackOk_of_returned {s₀ : S} {entry : E} {start : S} {h : List (Exchange A)} {value : α}
    {s : S} {below : List (Frame A S E α)} (hstack : C.StackOk s₀ start below)
    (hpending : C.Pending entry start h (.done value s) below) : C.StackOk s₀ s below := by
  obtain ⟨hadm, hadmits, hsafe, -, hreach⟩ := hpending
  have hkeep : ∀ R, C.Keeps below R → R start s := by
    intro R hR
    cases hR with
    | base => exact ((C.base_body hadm hsafe).of_reaches (hreach _ Keeps.base)).1
    | question hf =>
        exact (C.keeps_body (hadmits _ hf) hadm hsafe).of_reaches (hreach _ (Keeps.question hf))
  cases below with
  | nil => exact C.base_trans hstack (hkeep _ Keeps.base)
  | cons f below =>
      obtain ⟨hasked, hf, hbelow⟩ := hstack
      exact ⟨fun R hR => hR.trans C (hasked R hR) (hkeep R hR), hf, hbelow⟩

/-- Wherever a pending invocation stops, the state is safe. -/
theorem Pending.meets {entry : E} {start : S} {h : List (Exchange A)} {r : Result A S α}
    {below : List (Frame A S E α)} (hp : C.Pending entry start h r below) :
    Meets (fun x s s' => C.rely x s s' ∧ C.base s s') C.safe
      (fun _ t => C.base start t ∧ C.safe t) r :=
  (C.base_body hp.1 hp.2.2.1).of_reaches (hp.2.2.2.2 _ Keeps.base)

/-- Running on keeps the invariant. -/
theorem configOk_settle {s₀ : S} {c : Config A S E α} {entry : E} {start : S}
    {h : List (Exchange A)} : ∀ {r : Result A S α}, C.StackOk s₀ start c.stack →
      (∀ i ∈ c.log, C.Finished i) → C.Pending entry start h r c.stack →
      C.ConfigOk s₀ (settle c entry start h r)
  | .done value s, hstack, hlog, hp => by
      refine ⟨hp.meets.2, fun _ => C.stackOk_of_returned hstack hp, fun i hi => ?_⟩
      rcases List.mem_cons.mp hi with rfl | hi
      · have hruns := hp.2.2.2.1.runs (k := []) (o := .returned value) (t := s) ⟨rfl, rfl, rfl⟩
        exact ⟨hp.1, hp.2.2.1, by rwa [List.append_nil] at hruns⟩
      · exact hlog i hi
  | .crash s, _, hlog, hp => by
      refine ⟨hp.meets, nofun, fun i hi => ?_⟩
      rcases List.mem_cons.mp hi with rfl | hi
      · have hruns := hp.2.2.2.1.runs (k := []) (o := .crashed) (t := s) ⟨rfl, rfl, rfl⟩
        exact ⟨hp.1, hp.2.2.1, by rwa [List.append_nil] at hruns⟩
      · exact hlog i hi
  | .ask question s resume, hstack, hlog, hp =>
      ⟨hp.meets.1, fun _ => ⟨fun R hR => hR.refl C s, hp, hstack⟩, hlog⟩

theorem configOk_step {s₀ : S} {c c' : Config A S E α} {m : Move A E} (h : C.ConfigOk s₀ c)
    (hm : C.Admits c m) (hstep : Step body c m c') : C.ConfigOk s₀ c' := by
  cases hstep with
  | enter entry hc =>
      exact C.configOk_settle (h.stack hc) h.log
        ⟨hm.1, hm.2, h.safe, Reaches.start, fun _ _ => Reaches.start⟩
  | @answer f rest a hc hstack =>
      have hs := h.stack hc
      rw [hstack] at hs
      obtain ⟨hasked, ⟨hadm, hadmits, hsafe, hreach, hreach'⟩, hbelow⟩ := hs
      have hown : C.keeps f.question f.asked c.state :=
        hasked _ (Keeps.question List.mem_cons_self)
      refine C.configOk_settle (c := { c with stack := rest }) hbelow h.log
        ⟨hadm, hadmits, hsafe, Reaches.answer hreach ⟨hm, h.safe, hown⟩, fun R hR => ?_⟩
      exact Reaches.answer (hreach' R hR) ⟨⟨hm, h.safe, hown⟩, hasked R (hR.cons C f)⟩

section
variable {s₀ : S} {guard : Config A S E α → Move A E → Prop}
  (hguard : ∀ {c m}, guard c m → C.Admits c m) (h₀ : C.safe s₀) {c : Config A S E α}
  (h : Reachable body guard s₀ c)
include hguard h₀ h

/-- The invariant holds along every run of admitted moves. -/
theorem configOk_of_reachable : C.ConfigOk s₀ c := by
  induction h with
  | initial => exact ⟨h₀, fun _ => C.base_refl s₀, fun i hi => absurd hi List.not_mem_nil⟩
  | step _ hm hstep ih => exact C.configOk_step ih (hguard hm) hstep

theorem safe_of_reachable : C.safe c.state := (C.configOk_of_reachable hguard h₀ h).safe

/-- Every finished invocation is a run of its entry point by itself. -/
theorem runs_log {i : Invocation A S E α} (hi : i ∈ c.log) : C.Finished i :=
  (C.configOk_of_reachable hguard h₀ h).log i hi

/-- While a question is pending, the state keeps what it relies on. -/
theorem keeps_of_pending (hc : c.crashed = false) {f : Frame A S E α}
    {rest : List (Frame A S E α)} (hf : c.stack = f :: rest) :
    C.keeps f.question f.asked c.state := by
  have hs := (C.configOk_of_reachable hguard h₀ h).stack hc
  rw [hf] at hs
  exact hs.1 _ (Keeps.question List.mem_cons_self)

/-- Between two outermost invocations the state is related to the first one. -/
theorem base_of_idle (hidle : c.stack = []) (hc : c.crashed = false) : C.base s₀ c.state := by
  have hs := (C.configOk_of_reachable hguard h₀ h).stack hc
  rw [hidle] at hs
  exact hs

end

/-- The contract that asks for nothing. -/
def free (body : E → Program A S α) : Contract body where
  keeps _ _ _ := True
  base _ _ := True
  safe _ := True
  valid _ := True
  admits _ _ := True
  admitted _ _ := True
  keeps_refl _ _ := trivial
  keeps_trans _ _ := trivial
  base_refl _ := trivial
  base_trans _ _ := trivial
  keeps_body _ _ _ := Meets.free (fun _ => trivial) (fun _ _ => trivial) _
  base_body _ _ := Meets.free (fun _ => trivial) (fun _ _ => ⟨trivial, trivial⟩) _

theorem admits_free {body : E → Program A S α} (c : Config A S E α) (m : Move A E) :
    (free body).Admits c m := by
  cases m with
  | enter entry => exact ⟨trivial, fun _ _ => trivial⟩
  | answer x => exact trivial

end Contract

/-- Whatever the environment does, a finished invocation is a run of its entry
point. -/
theorem runs_of_reachable {body : E → Program A S α} {guard : Config A S E α → Move A E → Prop}
    {s₀ : S} {c : Config A S E α} (h : Reachable body guard s₀ c) {i : Invocation A S E α}
    (hi : i ∈ c.log) :
    Runs (fun _ _ _ => True) (body i.entry i.start) i.history i.outcome i.final := by
  have hf := (Contract.free body).runs_log (fun {c m} _ => Contract.admits_free c m) trivial h hi
  exact hf.2.2.mono fun _ => trivial

/-! ### Runs that nothing disturbs -/

/-- The environment does nothing between a question and its answer. -/
def Undisturbed (_ : Exchange A) (s s' : S) : Prop := s' = s

/-- The run in which `oracle` answers the questions: its history, outcome and final
state. -/
def Result.play (oracle : (q : Q) → A q) :
    Result A S α → List (Exchange A) × Outcome α × S
  | .done value s => ([], .returned value, s)
  | .crash s => ([], .crashed, s)
  | .ask question s resume =>
      let rest := (resume (oracle question) s).play oracle
      (⟨question, oracle question⟩ :: rest.1, rest.2)

theorem runs_play (oracle : (q : Q) → A q) : ∀ r : Result A S α,
    Runs Undisturbed r (r.play oracle).1 (r.play oracle).2.1 (r.play oracle).2.2
  | .done _ _ => ⟨rfl, rfl, rfl⟩
  | .crash _ => ⟨rfl, rfl, rfl⟩
  | .ask question s resume =>
      ⟨oracle question, s, _, rfl, rfl, runs_play oracle (resume (oracle question) s)⟩

/-- The answers of the run are those of `oracle`. -/
theorem answer_of_mem_play (oracle : (q : Q) → A q) : ∀ {r : Result A S α} {x : Exchange A},
    x ∈ (r.play oracle).1 → x.answer = oracle x.question
  | .done _ _, _, hx => absurd hx List.not_mem_nil
  | .crash _, _, hx => absurd hx List.not_mem_nil
  | .ask question s resume, x, hx => by
      rcases List.mem_cons.mp hx with rfl | hx
      · rfl
      · exact answer_of_mem_play oracle hx

theorem reachable_of_runs {body : E → Program A S α} {guard : Config A S E α → Move A E → Prop}
    {s₀ : S} {entry : E} {start : S} {o : Outcome α} {t : S} :
    ∀ {r : Result A S α} {c : Config A S E α} {h h' : List (Exchange A)},
    c.crashed = false → Reachable body guard s₀ (settle c entry start h r) →
      Runs Undisturbed r h' o t → (∀ x ∈ h', ∀ c, guard c (.answer x)) →
      ∃ c', Reachable body guard s₀ c' ∧ c'.state = t ∧ c'.stack = c.stack ∧
        c'.log = ⟨entry, start, h ++ h', o, t⟩ :: c.log ∧ c'.crashed = !o.isReturned
  | .done value s, c, h, h', hcrashed, hc, hr, _ => by
      obtain ⟨rfl, rfl, rfl⟩ := hr
      exact ⟨_, hc, rfl, rfl, by rw [List.append_nil]; rfl, hcrashed⟩
  | .crash s, c, h, h', _, hc, hr, _ => by
      obtain ⟨rfl, rfl, rfl⟩ := hr
      exact ⟨_, hc, rfl, rfl, by rw [List.append_nil]; rfl, rfl⟩
  | .ask question s resume, c, h, h', hcrashed, hc, hr, hguard => by
      obtain ⟨a, s', rest, rfl, rfl, hr⟩ := hr
      have hstep := Reachable.step hc (hguard ⟨question, a⟩ List.mem_cons_self _)
        (Step.answer (f := ⟨entry, start, h, question, _, resume⟩) a hcrashed rfl)
      have hsettled := reachable_of_runs (c := { c with state := s' }) hcrashed hstep hr
        fun x hx => hguard x (List.mem_cons_of_mem _ hx)
      rwa [List.append_assoc] at hsettled

/-- What `oracle` answers, the machine can go through, wherever it stands. -/
theorem reachable_play {body : E → Program A S α} {guard : Config A S E α → Move A E → Prop}
    {s₀ : S} {c : Config A S E α} (hc : Reachable body guard s₀ c) (hcrashed : c.crashed = false)
    {entry : E} (hentry : guard c (.enter entry)) (oracle : (q : Q) → A q)
    (hanswer : ∀ x : Exchange A, x.answer = oracle x.question → ∀ c, guard c (.answer x)) :
    ∃ c', Reachable body guard s₀ c' ∧
      c'.state = ((body entry c.state).play oracle).2.2 ∧ c'.stack = c.stack ∧
      c'.log = ⟨entry, c.state, ((body entry c.state).play oracle).1,
        ((body entry c.state).play oracle).2.1, ((body entry c.state).play oracle).2.2⟩ :: c.log ∧
      c'.crashed = !((body entry c.state).play oracle).2.1.isReturned :=
  reachable_of_runs hcrashed (Reachable.step hc hentry (Step.enter entry hcrashed))
    (runs_play oracle _) fun x hx => hanswer x (answer_of_mem_play oracle hx)

/-- With the answer of `oracle`, in the state that `f` makes of the one it was asked in. -/
def Result.answer (oracle : (q : Q) → A q) (f : S → S) : Result A S α → Result A S α
  | .ask question s resume => resume (oracle question) (f s)
  | r => r

/-- Other invocations may come between a question and its answer. -/
theorem reachable_answer {body : E → Program A S α} {guard : Config A S E α → Move A E → Prop}
    {s₀ : S} {c : Config A S E α} {entry : E} {start : S} {h : List (Exchange A)} {f : S → S}
    (oracle : (q : Q) → A q)
    (hanswer : ∀ x : Exchange A, x.answer = oracle x.question → ∀ c, guard c (.answer x)) :
    ∀ {r : Result A S α}, Reachable body guard s₀ (settle c entry start h r) →
      c.crashed = false →
      (∀ {c₁}, Reachable body guard s₀ c₁ → c₁.crashed = false → c₁.state = r.state →
        ∃ c₂, Reachable body guard s₀ c₂ ∧ c₂.state = f r.state ∧ c₂.stack = c₁.stack ∧
          c₂.crashed = false) →
      ∃ c' h', Reachable body guard s₀ (settle c' entry start h' (r.answer oracle f)) ∧
        c'.crashed = false
  | .done value s, hr, hc, _ => ⟨c, h, hr, hc⟩
  | .crash s, hr, hc, _ => ⟨c, h, hr, hc⟩
  | .ask question s resume, hr, hc, hbetween => by
      obtain ⟨c₂, hc₂, hstate, hstack, hcrashed⟩ := hbetween hr hc rfl
      have hstep := Reachable.step hc₂ (hanswer ⟨question, oracle question⟩ rfl _)
        (Step.answer (f := ⟨entry, start, h, question, s, resume⟩) (oracle question) hcrashed
          hstack)
      rw [hstate] at hstep
      exact ⟨_, _, hstep, hcrashed⟩

end Machine

end Reentrant
