import Mathlib.Logic.Basic

/-!
# Programs that ask their environment

A program is a tree: it ends with a value, or it asks for one operation and goes on with the
answer. What an operation does to the world, and what it answers, depends on a choice of the
environment (`Interp`): an error, a reading of the clock, a random number.
-/

namespace Lib

structure Sig where
  Op : Type
  Ans : Op → Type

inductive Prog (S : Sig) (α : Type)
  | ret (a : α)
  | ask (op : S.Op) (k : S.Ans op → Prog S α)

namespace Prog

variable {S : Sig} {α β : Type}

def bind : Prog S α → (α → Prog S β) → Prog S β
  | ret a, f => f a
  | ask op k, f => ask op fun x => (k x).bind f

instance : Monad (Prog S) where
  pure := ret
  bind := bind

lemma bind_bind {γ : Type} (p : Prog S α) (f : α → Prog S β) (g : β → Prog S γ) :
    p >>= f >>= g = p >>= fun a => f a >>= g := by
  show (p.bind f).bind g = p.bind fun a => (f a).bind g
  induction p with
  | ret => rfl
  | ask op k ih =>
    simp only [bind]
    exact congrArg (ask op) (funext ih)

def call (op : S.Op) : Prog S (S.Ans op) := ask op ret

def ended : Prog S α → Bool
  | ret _ => true
  | ask _ _ => false

/-- What the environment does when it is asked: a choice gives the next world and the answer. -/
abbrev Interp (S : Sig) (W R : Type) := (op : S.Op) → W → R → W × S.Ans op

variable {W R : Type}

section
variable (I : Interp S W R)

def exec : Prog S α → W → List R → W × Prog S α
  | ret a, w, _ => (w, ret a)
  | ask op k, w, [] => (w, ask op k)
  | ask op k, w, r :: rs => exec (k (I op w r).2) (I op w r).1 rs

def finish : Prog S α → W → (Nat → R) → W × α
  | ret a, w, _ => (w, a)
  | ask op k, w, rs => finish (k (I op w (rs 0)).2) (I op w (rs 0)).1 fun n => rs (n + 1)

variable (ok : S.Op → W → R → Prop)

def Admits : Prog S α → W → List R → Prop
  | ret _, _, _ => True
  | ask _ _, _, [] => True
  | ask op k, w, r :: rs => ok op w r ∧ Admits (k (I op w r).2) (I op w r).1 rs

instance decidableAdmits [∀ op w r, Decidable (ok op w r)] :
    (p : Prog S α) → (w : W) → (rs : List R) → Decidable (p.Admits I ok w rs)
  | ret _, _, _ => isTrue trivial
  | ask _ _, _, [] => isTrue trivial
  | ask op k, w, r :: rs =>
    match decidableAdmits (k (I op w r).2) (I op w r).1 rs with
    | isTrue h => decidable_of_iff (ok op w r) ⟨fun hr => ⟨hr, h⟩, fun hr => hr.1⟩
    | isFalse h => isFalse fun hr => h hr.2

/-- With admitted choices, `stop` holds whenever the program may stop before an operation and
`post` holds when it ends. -/
def Safe (stop : S.Op → W → Prop) (post : α → W → Prop) : Prog S α → W → Prop
  | ret a, w => post a w
  | ask op k, w => stop op w ∧ ∀ r, ok op w r → Safe stop post (k (I op w r).2) (I op w r).1

end

section
variable {I : Interp S W R} {ok : S.Op → W → R → Prop} {stop : S.Op → W → Prop}
  {post : α → W → Prop} {p : Prog S α} {w : W}

lemma safe_pure (a : α) : Safe I ok stop post (pure a) w ↔ post a w := Iff.rfl

lemma safe_call_bind {op : S.Op} {f : S.Ans op → Prog S α} :
    Safe I ok stop post (call op >>= f) w ↔
      stop op w ∧ ∀ r, ok op w r → Safe I ok stop post (f (I op w r).2) (I op w r).1 :=
  Iff.rfl

lemma safe_bind {f : α → Prog S β} {post : β → W → Prop} :
    Safe I ok stop post (p >>= f) w ↔
      Safe I ok stop (fun a w => Safe I ok stop post (f a) w) p w := by
  show Safe I ok stop post (p.bind f) w ↔ _
  induction p generalizing w with
  | ret => exact Iff.rfl
  | ask op k ih =>
    simp only [bind, Safe]
    exact and_congr_right fun _ => forall_congr' fun r => imp_congr_right fun _ => ih _

lemma Safe.mono {ok' : S.Op → W → R → Prop} {stop' : S.Op → W → Prop} {post' : α → W → Prop}
    (h : Safe I ok stop post p w) (hok : ∀ op w r, ok' op w r → ok op w r)
    (hstop : ∀ op w, stop op w → stop' op w) (hpost : ∀ a w, post a w → post' a w) :
    Safe I ok' stop' post' p w := by
  induction p generalizing w with
  | ret a => exact hpost a w h
  | ask op k ih => exact ⟨hstop op w h.1, fun r hr => ih _ (h.2 r (hok op w r hr))⟩

lemma Safe.bind {stop' : S.Op → W → Prop} {f : α → Prog S β} {post' : β → W → Prop}
    (h : Safe I ok stop post p w) (hstop : ∀ op w, stop op w → stop' op w)
    (hf : ∀ a w, post a w → Safe I ok stop' post' (f a) w) : Safe I ok stop' post' (p >>= f) w :=
  safe_bind.mpr (h.mono (fun _ _ _ h => h) hstop hf)

lemma admits_of_forall (hok : ∀ op w r, ok op w r) (p : Prog S α) (w : W) (rs : List R) :
    p.Admits I ok w rs := by
  induction p generalizing w rs with
  | ret => trivial
  | ask op k ih =>
    cases rs with
    | nil => trivial
    | cons r => exact ⟨hok op w r, ih _ _ _⟩

lemma Safe.returned (h : Safe I ok stop post p w) {rs : List R} (hrs : p.Admits I ok w rs)
    {w' : W} {a : α} (hrun : p.exec I w rs = (w', ret a)) : post a w' := by
  induction p generalizing w rs with
  | ret =>
    cases hrun
    exact h
  | ask op k ih =>
    cases rs with
    | nil => cases hrun
    | cons r => exact ih _ (h.2 r hrs.1) hrs.2 hrun

lemma Safe.stopped (h : Safe I ok stop post p w) {rs : List R} (hrs : p.Admits I ok w rs)
    {w' : W} {op : S.Op} {k : S.Ans op → Prog S α} (hrun : p.exec I w rs = (w', ask op k)) :
    stop op w' := by
  induction p generalizing w rs with
  | ret => cases hrun
  | ask op' k' ih =>
    cases rs with
    | nil =>
      cases hrun
      exact h.1
    | cons r => exact ih _ (h.2 r hrs.1) hrs.2 hrun

end

end Prog

end Lib
