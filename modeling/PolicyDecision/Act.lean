import PolicyDecision.Trail

/-!
# Operations

An operation works on a state, may fail, and leaves a trail. The state and the trail survive a
failure. `Audited α` is an operation without a state; `Act.zoom` runs an operation on a part of
a larger state and leaves the rest as it is.

The trail of two operations in a row is the trail of the first followed by that of the second,
so a trail never depends on what happened before.
-/

namespace PolicyDecision

/-- What an operation comes to. -/
structure Outcome (σ α : Type) where
  result : Except Error α
  state : σ
  trail : Trail

/-- An operation on a state that may fail and leaves a trail. -/
def Act (σ α : Type) := σ → Outcome σ α

/-- An operation without a state. -/
abbrev Audited := Act Unit

namespace Act

variable {σ τ α β : Type}

/-- Do nothing but answer. -/
def pure (a : α) : Act σ α :=
  fun s => ⟨.ok a, s, []⟩

/-- Do nothing but fail. -/
def fail (e : Error) : Act σ α :=
  fun s => ⟨.error e, s, []⟩

/-- Go on with an answer, unless there is none. -/
def bind (x : Act σ α) (f : α → Act σ β) : Act σ β := fun s =>
  let first := x s
  match first.result with
  | .ok a =>
    let second := f a first.state
    { second with trail := first.trail ++ second.trail }
  | .error e => ⟨.error e, first.state, first.trail⟩

instance : Monad (Act σ) where
  pure := Act.pure
  bind := Act.bind

instance : LawfulMonad (Act σ) := LawfulMonad.mk' (Act σ)
  (fun x => by
    funext s
    rcases h : x s with ⟨_ | a, t, trail⟩ <;>
      simp [Functor.map, Act.bind, Act.pure, h])
  (fun a f => by
    funext s
    simp [Bind.bind, Pure.pure, Act.bind, Act.pure])
  (fun x f g => by
    funext s
    rcases h : x s with ⟨_ | a, t, trail⟩
    · simp [Bind.bind, Act.bind, h]
    · rcases h' : f a t with ⟨_ | b, u, trail'⟩ <;>
        simp [Bind.bind, Act.bind, h, h'])

instance : MonadExcept Error (Act σ) where
  throw := fail
  tryCatch x handler := fun s =>
    let first := x s
    match first.result with
    | .ok _ => first
    | .error e =>
      let second := handler e first.state
      { second with trail := first.trail ++ second.trail }

instance : MonadStateOf σ (Act σ) where
  get := fun s => ⟨.ok s, s, []⟩
  set t := fun _ => ⟨.ok (), t, []⟩
  modifyGet f := fun s => let (a, t) := f s; ⟨.ok a, t, []⟩

/-- Leave an event on the trail. -/
def record (event : Event) : Act σ Unit :=
  fun s => ⟨.ok (), s, [event]⟩

def recordAll (events : Trail) : Act σ Unit :=
  fun s => ⟨.ok (), s, events⟩

def log (notice : Notice) : Act σ Unit :=
  record (.logged notice)

/-- Answer or fail as a computation did. -/
def ofExcept (result : Except Error α) : Act σ α :=
  fun s => ⟨result, s, []⟩

/-- Run an operation on a part of the state, which `part` finds and `put` puts back. -/
def zoom (part : σ → τ) (put : τ → σ → σ) (x : Act τ α) : Act σ α := fun s =>
  let o := x (part s)
  ⟨o.result, put o.state s, o.trail⟩

/-- An operation that does not need the state. -/
def ofAudited (x : Audited α) : Act σ α :=
  zoom (fun _ => ()) (fun _ s => s) x

instance : MonadLift Audited (Act σ) := ⟨ofAudited⟩

end Act
end PolicyDecision
