import Mathlib.Algebra.Order.Ring.Unbundled.Rat
import Stele.Lib.Bytes
import Stele.Lib.Runs

/-!
# The ingest gate (`pkg/api/ingest.go`)

Every producer and every admin actor has a rate limiter of its own; the janitor drops those that
were idle. Handlers and janitor interleave at the gate's lock: a locked section is one step, with
one reading of the clock.
-/

namespace Stele.Ingest

open Lib Function

inductive Kind
  | producer | admin
  deriving DecidableEq

/-- The limit of a kind of callers, with the limiters of `golang.org/x/time/rate`. -/
structure Rate (L : Type) where
  rps : ℚ
  burst : Int
  newLimiter : ℚ → Int → L
  ask : L → Int → Bool × L

structure BucketEntry (L : Type) where
  lim : L
  lastUsed : Int

/-- The gate, its two maps as one. No step reads `clock` and `calls`: the time, and the times at
which a caller was limited. -/
structure Gate (L : Type) where
  rate : Kind → Rate L
  limits : Kind × Bytes → Option (BucketEntry L) := fun _ => none
  clock : Int
  calls : Kind × Bytes → List Int := fun _ => []

variable {L : Type}

def Rate.bucket (R : Rate L) : L := R.newLimiter R.rps (if R.burst ≤ 0 then 1 else R.burst)

def Gate.lim (g : Gate L) (x : Kind × Bytes) : L :=
  ((g.limits x).map BucketEntry.lim).getD (g.rate x.1).bucket

def allow (g : Gate L) (x : Kind × Bytes) (now : Int) : Bool × Gate L :=
  if (g.rate x.1).rps ≤ 0 then (true, { g with clock := now })
  else
    let r := (g.rate x.1).ask (g.lim x) now
    (r.1, { g with
      limits := update g.limits x (some ⟨r.2, now⟩)
      clock := now
      calls := update g.calls x (g.calls x ++ [now]) })

def allowProducer (g : Gate L) (id : Bytes) (now : Int) : Bool × Gate L :=
  allow g (.producer, id) now

def allowAdmin (g : Gate L) (actor : Bytes) (now : Int) : Bool × Gate L :=
  allow g (.admin, actor) now

def evictIdle (g : Gate L) (older now : Int) : Gate L :=
  { g with
    limits := fun x => (g.limits x).filter fun e => now - older ≤ e.lastUsed
    clock := now }

inductive Call
  | producer (id : Bytes)
  | admin (actor : Bytes)
  | evict (older : Int)

def step (g : Gate L) : Call × Int → Gate L
  | (.producer id, now) => (allowProducer g id now).2
  | (.admin actor, now) => (allowAdmin g actor now).2
  | (.evict older, now) => evictIdle g older now

/-- A limiter that was asked at the times `ts` and never dropped. -/
def Rate.after (R : Rate L) (ts : List Int) : L := ts.foldl (fun l t => (R.ask l t).2) R.bucket

lemma Rate.after_append (R : Rate L) (ts : List Int) (t : Int) :
    R.after (ts ++ [t]) = (R.ask (R.after ts) t).2 := List.foldl_append

/-- A limiter that was not asked for longer than `older` answers as a new one does. -/
def Rate.Forgets (R : Rate L) (older : Int) : Prop :=
  0 < R.rps → ∀ ts t now, (∀ s ∈ ts, s ≤ t) → older < now - t →
    R.ask R.bucket now = R.ask (R.after ts) now

/-- The clock does not go back, and the janitor spares limiters that could still refuse. -/
def Timely (g : Gate L) (a : Call × Int) : Prop :=
  g.clock ≤ a.2 ∧ ∀ older, a.1 = .evict older → ∀ k, (g.rate k).Forgets older

structure Inv (rate : Kind → Rate L) (g : Gate L) : Prop where
  rates : g.rate = rate
  answers : ∀ x now, g.clock ≤ now →
    (rate x.1).ask (g.lim x) now = (rate x.1).ask ((rate x.1).after (g.calls x)) now
  past : ∀ x, ∀ s ∈ g.calls x, s ≤ g.clock
  used : ∀ x e, g.limits x = some e → 0 < (rate x.1).rps ∧ ∀ s ∈ g.calls x, s ≤ e.lastUsed

section

variable {rate : Kind → Rate L} {g : Gate L} {now : Int} (h : Inv rate g) (hle : g.clock ≤ now)

include h hle

lemma Inv.later : Inv rate { g with clock := now } :=
  ⟨h.rates, fun x t ht => h.answers x t (hle.trans ht),
    fun x s hs => (h.past x s hs).trans hle, h.used⟩

lemma Inv.allow (x : Kind × Bytes) : Inv rate (allow g x now).2 := by
  obtain rfl := h.rates
  have hpast := (h.later hle).past
  unfold Ingest.allow
  split
  · exact h.later hle
  · rename_i hrps
    have hcalls : ∀ s ∈ g.calls x ++ [now], s ≤ now := by
      simpa [or_imp, forall_and] using hpast x
    refine ⟨rfl, fun y t ht => ?_, fun y => ?_, fun y e he => ?_⟩
    all_goals by_cases hy : y = x
    · have hnext := h.answers x now hle
      rw [Gate.lim] at hnext
      simp [hy, Gate.lim, Rate.after_append, hnext]
    · simpa [Gate.lim, hy] using h.answers y t (hle.trans ht)
    · simpa [hy] using hcalls
    · simpa [hy] using hpast y
    · simp only [hy, update_self, Option.some.injEq] at he ⊢
      exact ⟨not_le.mp hrps, he ▸ hcalls⟩
    · simp only [update_of_ne hy] at he ⊢
      exact h.used y e he

lemma Inv.evictIdle {older : Int} (hforgets : ∀ k, (rate k).Forgets older) :
    Inv rate (evictIdle g older now) := by
  refine ⟨h.rates, fun x t (ht : now ≤ t) => ?_, (h.later hle).past, fun x e he => ?_⟩
  · have hbefore := h.answers x t (hle.trans ht)
    simp only [Gate.lim, Ingest.evictIdle] at hbefore ⊢
    cases he : g.limits x with
    | none => simpa [he] using hbefore
    | some e =>
      by_cases hkeep : now - older ≤ e.lastUsed
      · simpa [he, Option.filter, hkeep] using hbefore
      · obtain ⟨hrps, hused⟩ := h.used x e he
        simpa [Option.filter, hkeep, h.rates] using hforgets x.1 hrps _ _ t hused (by omega)
  · exact h.used x e (Option.filter_eq_some_iff.mp he).1

end

lemma Inv.step {rate : Kind → Rate L} {g : Gate L} {a : Call × Int} (h : Inv rate g)
    (ha : Timely g a) : Inv rate (step g a) := by
  obtain ⟨c | c | older, now⟩ := a
  · exact h.allow ha.1 _
  · exact h.allow ha.1 _
  · exact h.evictIdle ha.1 (h.rates ▸ ha.2 older rfl)

/-- A call is allowed a second after the last one. -/
def spaced : Rate (Option Int) :=
  ⟨1, 1, fun _ _ => none, fun l t => (l.all (· + 10 ^ 9 ≤ t), some t)⟩

lemma spaced_forgets : spaced.Forgets (10 ^ 9) := by
  intro _ ts t now hts hidle
  rcases ts.eq_nil_or_concat with rfl | ⟨ts, s, rfl⟩
  · rfl
  · have hs : s ≤ t := hts s (by simp)
    simp [Rate.after_append, spaced, Rate.bucket]
    omega

def sampleCalls : List (Call × Int) := [(.producer [], 0), (.evict (10 ^ 9), 10 ^ 10)]

end Stele.Ingest
