import Mathlib.Data.List.Basic

/-!
# Runs of a state machine

A machine is a total step function; an action that is not possible in a state leaves it as it is.
`run` takes a list of actions. `run_invariant` is the induction every safety proof uses: a property
that every admissible action keeps holds at the end of every run of admissible actions. When an
action is admissible depends on the state, the condition is `Along` and the rule is
`along_invariant`.
-/

namespace Lib

section
variable {σ α : Type} (step : σ → α → σ)

def run (s : σ) (as : List α) : σ := as.foldl step s

@[simp] lemma run_nil (s : σ) : run step s [] = s := rfl

@[simp] lemma run_cons (s : σ) (a : α) (as : List α) :
    run step s (a :: as) = run step (step s a) as := rfl

lemma run_append (s : σ) (as bs : List α) :
    run step s (as ++ bs) = run step (run step s as) bs := List.foldl_append

variable {step} {s : σ} {as : List α}

lemma run_invariant {I : σ → Prop} {ok : α → Prop} (hstep : ∀ s a, ok a → I s → I (step s a))
    (h : I s) (has : ∀ a ∈ as, ok a) : I (run step s as) := by
  induction as generalizing s with
  | nil => exact h
  | cons a as ih =>
    have ha : I (step s a) := hstep s a (has a (by simp)) h
    exact ih ha fun b hb => has b (by simp [hb])

def Along (step : σ → α → σ) (ok : σ → α → Prop) : σ → List α → Prop
  | _, [] => True
  | s, a :: as => ok s a ∧ Along step ok (step s a) as

variable {ok : σ → α → Prop}

lemma along_append {step : σ → α → σ} {bs : List α} :
    Along step ok s (as ++ bs) ↔ Along step ok s as ∧ Along step ok (run step s as) bs := by
  induction as generalizing s with
  | nil => simp [Along]
  | cons a as ih => simp [Along, ih, and_assoc]

lemma Along.and_all {step : σ → α → σ} {q : α → Prop} (h : Along step ok s as)
    (hq : ∀ a ∈ as, q a) : Along step (fun s a => ok s a ∧ q a) s as := by
  induction as generalizing s with
  | nil => trivial
  | cons a as ih => exact ⟨⟨h.1, hq a (by simp)⟩, ih h.2 fun b hb => hq b (by simp [hb])⟩

instance decidableAlong {step : σ → α → σ} {ok : σ → α → Prop} [∀ s a, Decidable (ok s a)] :
    (s : σ) → (as : List α) → Decidable (Along step ok s as)
  | _, [] => isTrue trivial
  | s, a :: as =>
    match decidableAlong (step s a) as with
    | isTrue h => decidable_of_iff (ok s a) ⟨fun ha => ⟨ha, h⟩, fun ha => ha.1⟩
    | isFalse h => isFalse fun ha => h ha.2

instance decidableSome {β : Type} {p : β → Prop} [∀ b, Decidable (p b)] :
    (o : Option β) → Decidable (∀ b, o = some b → p b)
  | none => isTrue nofun
  | some b => decidable_of_iff (p b) ⟨fun h _ heq => Option.some.inj heq ▸ h, fun h => h b rfl⟩

lemma along_invariant {I : σ → Prop} (hstep : ∀ s a, I s → ok s a → I (step s a)) (h : I s)
    (has : Along step ok s as) : I (run step s as) := by
  induction as generalizing s with
  | nil => exact h
  | cons a as ih => exact ih (hstep s a h has.1) has.2

end

end Lib
