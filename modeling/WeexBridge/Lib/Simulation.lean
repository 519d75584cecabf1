/-
# Two programs in one environment

An environment answers a question by what has happened before: it may be any
function of the questions asked so far, the states they were asked in, its own
answers and what it has made of the states.  Two programs that cannot be told
apart ask it the same questions in the same states, and end alike.

    against      the run of a program in an environment
    check        an assertion, which crashes where it fails
    Follows      the second program does what the first does, for as long as no
                 assertion of the first fails
-/
import WeexBridge.Lib.Reentrant

namespace Reentrant

variable {Q : Type} {A : Q → Type} {S α β γ δ : Type}

/-! ## Sequences -/

theorem Result.bind_pure : ∀ r : Result A S α, r.bind Pure.pure = r
  | .done _ _ => rfl
  | .crash _ => rfl
  | .ask question s resume => congrArg (Result.ask question s)
      (funext fun a => funext fun s' => bind_pure (resume a s'))

theorem Result.bind_assoc {f : α → Program A S β} {g : β → Program A S γ} :
    ∀ r : Result A S α, (r.bind f).bind g = r.bind fun value => f value >>= g
  | .done _ _ => rfl
  | .crash _ => rfl
  | .ask question s resume => congrArg (Result.ask question s)
      (funext fun a => funext fun s' => bind_assoc (resume a s'))

instance : LawfulMonad (Program A S) :=
  LawfulMonad.mk' (Program A S) (fun p => funext fun s => (p s).bind_pure) (fun _ _ => rfl)
    fun p _ _ => funext fun s => (p s).bind_assoc

/-! ## Environments -/

/-- An exchange, with the state the question is asked in and the one that the answer
comes with. -/
structure Event {Q : Type} (A : Q → Type) (S : Type) where
  asked : S
  exchange : Exchange A
  answered : S

/-- What answers, from what has happened before. -/
def Environment {Q : Type} (A : Q → Type) (S : Type) : Type :=
  List (Event A S) → (question : Q) → S → A question × S

/-- The run in an environment: what has happened at its end, the outcome, and the
final state. -/
def Result.against (env : Environment A S) :
    Result A S α → List (Event A S) → List (Event A S) × Outcome α × S
  | .done value s, past => (past, .returned value, s)
  | .crash s, past => (past, .crashed, s)
  | .ask question s resume, past =>
      let (a, s') := env past question s
      (resume a s').against env (past ++ [⟨s, ⟨question, a⟩, s'⟩])

/-- No assertion fails in the run. -/
def Result.Holds (env : Environment A S) (r : Result A S α) : Prop :=
  (r.against env []).2.1.isReturned = true

/-! ## Assertions -/

namespace Program

def check (condition : S → Bool) : Program A S Unit :=
  fun s => if condition s then .done () s else .crash s

end Program

/-! ## Simulation -/

/-- Until `r` crashes, `r'` asks what it asks, in the same state, and returns where it
does, with a value that `R` relates. -/
def Follows (R : α → β → Prop) : Result A S α → Result A S β → Prop
  | .done value s, r' => ∃ value', r' = .done value' s ∧ R value value'
  | .crash _, _ => True
  | .ask question s resume, r' => ∃ resume', r' = .ask question s resume' ∧
      ∀ a s', Follows R (resume a s') (resume' a s')

/-- Started in `s`, `q` follows `p`. -/
def FollowsFrom (s : S) (R : α → β → Prop) (p : Program A S α) (q : Program A S β) : Prop :=
  Follows R (p s) (q s)

section
variable {R : α → β → Prop} {R' : γ → δ → Prop}

theorem Follows.bind {f : α → Program A S γ} {f' : β → Program A S δ} :
    ∀ {r : Result A S α} {r' : Result A S β}, Follows R r r' →
      (∀ {value value'} s, R value value' → FollowsFrom s R' (f value) (f' value')) →
      Follows R' (r.bind f) (r'.bind f')
  | .done value s, _, ⟨value', hr', hR⟩, hf => by
      cases hr'
      exact hf s hR
  | .crash _, _, _, _ => trivial
  | .ask question s resume, _, ⟨resume', hr', h⟩, hf => by
      cases hr'
      exact ⟨_, rfl, fun a s' => (h a s').bind hf⟩

theorem Follows.refl {R : α → α → Prop} (hR : ∀ value, R value value) :
    ∀ r : Result A S α, Follows R r r
  | .done value _ => ⟨value, rfl, hR value⟩
  | .crash _ => trivial
  | .ask _ _ resume => ⟨resume, rfl, fun a s' => Follows.refl hR (resume a s')⟩

/-- In any environment in which no assertion of the first program fails. -/
theorem Follows.against (env : Environment A S) :
    ∀ {r : Result A S α} {r' : Result A S β} {past : List (Event A S)}, Follows R r r' →
      (r.against env past).2.1.isReturned = true →
      ∃ events value value' t, r.against env past = (events, .returned value, t) ∧
        r'.against env past = (events, .returned value', t) ∧ R value value'
  | .done value s, _, past, ⟨value', hr', hR⟩, _ => by
      cases hr'
      exact ⟨past, value, value', s, rfl, rfl, hR⟩
  | .crash _, _, _, _, hc => nomatch hc
  | .ask question s resume, _, past, ⟨resume', hr', h⟩, hc => by
      cases hr'
      exact (h (env past question s).1 (env past question s).2).against env hc

namespace FollowsFrom

variable {s : S} {p : Program A S α} {q : Program A S β}

theorem pure {value : α} {value' : β} (h : R value value') :
    FollowsFrom s R (Pure.pure value : Program A S α) (Pure.pure value') :=
  ⟨value', rfl, h⟩

theorem refl {R : α → α → Prop} (hR : ∀ value, R value value) (p : Program A S α) :
    FollowsFrom s R p p :=
  Follows.refl hR (p s)

theorem bind (h : FollowsFrom s R p q) {f : α → Program A S γ} {f' : β → Program A S δ}
    (hf : ∀ {value value'} s, R value value' → FollowsFrom s R' (f value) (f' value')) :
    FollowsFrom s R' (p >>= f) (q >>= f') :=
  Follows.bind h hf

/-- What both begin with. -/
theorem same {p : Program A S α} {f : α → Program A S γ} {f' : α → Program A S δ}
    (hf : ∀ value s, FollowsFrom s R' (f value) (f' value)) :
    FollowsFrom s R' (p >>= f) (p >>= f') :=
  (refl (fun _ => rfl) p).bind fun {value value'} s h => by
    cases h
    exact hf value s

theorem read_left {f : S → α} {g : α → Program A S γ} {q : Program A S δ}
    (h : FollowsFrom s R' (g (f s)) q) : FollowsFrom s R' (Program.read f >>= g) q := h

theorem read_right {f : S → α} {g : α → Program A S δ} {p : Program A S γ}
    (h : FollowsFrom s R' p (g (f s))) : FollowsFrom s R' p (Program.read f >>= g) := h

/-- After an assertion, its condition holds. -/
theorem check {condition : S → Bool} {f : Unit → Program A S γ} {q : Program A S δ}
    (h : condition s = true → FollowsFrom s R' (f ()) q) :
    FollowsFrom s R' (Program.check condition >>= f) q := by
  show Follows R' (((if condition s then .done () s else .crash s) : Result A S Unit).bind f) _
  split_ifs with hc
  · exact h hc
  · trivial

end FollowsFrom

end

end Reentrant
