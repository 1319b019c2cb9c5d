import Stele.Lib.Bytes

/-!
# Errors, panics and checked steps

A function that returns `(T, error)` and may panic is a `Res T`. An error keeps its format string,
its arguments and the error it wraps (`%w`), so what a caller sees is part of the value.

A chain of checks is a `do` block of `ensure` steps. The lemmas below take such a block apart:
`ensure_ok` and `bind_ok` turn `x >>= f = .ok r` into the condition and the rest, so that one `simp`
shows what a successful call passed. `NoPanic` is the other half: a call that returns a value or an
error.
-/

namespace Lib

inductive Arg
  | nat (n : Nat)
  | int (i : Int)
  | bytes (b : Bytes)
  deriving DecidableEq, Repr

inductive Err
  | errorf (format : String) (args : List Arg)
  /-- `fmt.Errorf` with `%w`: the wrapped error comes last. -/
  | wrap (format : String) (args : List Arg) (cause : Err)
  deriving DecidableEq, Repr

inductive Fault
  | err (e : Err)
  | panic (what : String)
  deriving DecidableEq, Repr

abbrev Res (α : Type) := Except Fault α

def errorf (format : String) (args : List Arg) : Fault := .err (.errorf format args)

def Fault.wrap (format : String) (args : List Arg) : Fault → Fault
  | .err e => .err (.wrap format args e)
  | .panic w => .panic w

def wrapErr {α : Type} (format : String) (args : List Arg) (x : Res α) : Res α :=
  x.mapError (Fault.wrap format args)

def ensure (p : Prop) [Decidable p] (e : Fault) : Res Unit := if p then .ok () else .error e

def checkIf (c : Prop) [Decidable c] (x : Res Unit) : Res Unit := if c then x else .ok ()

section
variable {α β : Type}

@[simp] lemma mapError_ok {ε ε' : Type} {f : ε → ε'} {x : Except ε α} {a : α} :
    x.mapError f = .ok a ↔ x = .ok a := by
  cases x <;> simp [Except.mapError]

variable {x : Res α}

@[simp] lemma wrapErr_ok {format : String} {args : List Arg} {a : α} :
    wrapErr format args x = .ok a ↔ x = .ok a := mapError_ok

@[simp] lemma ensure_ok {p : Prop} [Decidable p] {e : Fault} {u : Unit} :
    ensure p e = .ok u ↔ p := by
  unfold ensure; split <;> simp [*]

@[simp] lemma checkIf_ok {c : Prop} [Decidable c] {x : Res Unit} {u : Unit} :
    checkIf c x = .ok u ↔ (c → x = .ok ()) := by
  unfold checkIf; split <;> simp [*]

@[simp] lemma bind_ok {ε : Type} {x : Except ε α} {f : α → Except ε β} {b : β} :
    (x >>= f) = .ok b ↔ ∃ a, x = .ok a ∧ f a = .ok b := by
  cases x with
  | error => simp [bind, Except.bind]
  | ok => simp [bind, Except.bind]

lemma ok_bind {ε : Type} (a : α) (f : α → Except ε β) : ((.ok a : Except ε α) >>= f) = f a := rfl

@[simp] lemma pure_ok {ε : Type} {a b : α} : (pure a : Except ε α) = .ok b ↔ a = b := by
  simp [pure, Except.pure]

@[simp] lemma throw_ok {e : Fault} {a : α} : (throw e : Res α) = .ok a ↔ False := by
  simp [throw, throwThe, MonadExceptOf.throw]

/-! ### Calls that do not panic -/

def NoPanic (x : Res α) : Prop := ∀ w, x ≠ .error (.panic w)

@[simp] lemma noPanic_ok (a : α) : NoPanic (.ok a : Res α) := nofun

@[simp] lemma noPanic_pure (a : α) : NoPanic (pure a : Res α) := noPanic_ok a

@[simp] lemma noPanic_err (e : Err) : NoPanic (.error (.err e) : Res α) := nofun

@[simp] lemma not_noPanic (w : String) : ¬NoPanic (.error (.panic w) : Res α) := fun h => h w rfl

@[simp] lemma noPanic_errorf (format : String) (args : List Arg) :
    NoPanic (.error (errorf format args) : Res α) := noPanic_err _

@[simp] lemma noPanic_throw (format : String) (args : List Arg) :
    NoPanic (throw (errorf format args) : Res α) := noPanic_err _

@[simp] lemma noPanic_ensure_err (p : Prop) [Decidable p] (e : Err) :
    NoPanic (ensure p (.err e)) := by
  unfold ensure
  split <;> simp

@[simp] lemma noPanic_ensure (p : Prop) [Decidable p] (format : String) (args : List Arg) :
    NoPanic (ensure p (errorf format args)) := noPanic_ensure_err p _

@[simp] lemma noPanic_checkIf {c : Prop} [Decidable c] {x : Res Unit} :
    NoPanic (checkIf c x) ↔ (c → NoPanic x) := by
  unfold checkIf
  split <;> simp [*]

@[simp] lemma noPanic_wrapErr {format : String} {args : List Arg} :
    NoPanic (wrapErr format args x) ↔ NoPanic x := by
  rcases x with (_ | _) | _ <;> simp [NoPanic, wrapErr, Except.mapError, Fault.wrap]

/-- A block does not panic when its first step does not, nor the rest after a success. -/
@[simp] lemma noPanic_bind {f : α → Res β} :
    NoPanic (x >>= f) ↔ NoPanic x ∧ ∀ a, x = .ok a → NoPanic (f a) := by
  cases x <;> simp [NoPanic, Bind.bind, Except.bind]

@[simp] lemma noPanic_map {f : α → β} : NoPanic (f <$> x) ↔ NoPanic x := by
  cases x <;> simp [NoPanic, Functor.map, Except.map]

end

end Lib
