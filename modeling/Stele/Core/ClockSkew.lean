import Mathlib.Algebra.Order.Ring.Int
import Mathlib.Algebra.Order.Group.Abs
import Stele.Core.Log

/-!
# The clock-skew guard

`CheckpointCtx` compares the clock with the time of the drand round that it puts into the
checkpoint. It computes the difference in 64 bits, so that a round far in the future may look like
one of today.
-/

namespace Stele.Core

open Lib

def roundTime (round : Nat) : Int := 1692489600 + 3 * round

/-- The clock, in seconds, is 2^63 seconds away from the round modulo 2^64, or within the limit of
it modulo 2^64 but not in fact. -/
def SkewAliased (now : Int) (round : Nat) : Prop :=
  ∃ k : Int, roundTime round - now = 2 ^ 63 + k * 2 ^ 64 ∨
    k ≠ 0 ∧ |roundTime round - now - k * 2 ^ 64| ≤ defaultMaxClockSkew

/-- The difference as `CheckpointCtx` computes it, without the sign. -/
def skewOf (now : Int) (round : Nat) : Int :=
  let diff := int64 (now - int64 (roundTime round))
  if diff < 0 then int64 (-diff) else diff

lemma int64_spec (i : Int) : ∃ k : Int, int64 i = i + k * 2 ^ 64 ∧ IsInt64 (int64 i) := by
  refine ⟨-((i + 2 ^ 63) / 2 ^ 64), ?_⟩
  simp only [int64, IsInt64, Int.bmod]
  split <;> omega

/-- The guard passes exactly when the difference modulo 2^64 is within the limit or has no
opposite. -/
lemma skewOf_le_iff (now : Int) (round : Nat) :
    skewOf now round ≤ defaultMaxClockSkew ↔
      ∃ k : Int, roundTime round - now = 2 ^ 63 + k * 2 ^ 64 ∨
        |roundTime round - now - k * 2 ^ 64| ≤ defaultMaxClockSkew := by
  obtain ⟨k1, hexp, -⟩ := int64_spec (roundTime round)
  obtain ⟨k2, hdiff, hrange⟩ := int64_spec (now - int64 (roundTime round))
  obtain ⟨k3, hneg, hrange'⟩ := int64_spec (-int64 (now - int64 (roundTime round)))
  simp only [IsInt64] at hrange hrange'
  simp only [skewOf, defaultMaxClockSkew, abs_le]
  generalize int64 (-int64 (now - int64 (roundTime round))) = opposite at *
  generalize int64 (now - int64 (roundTime round)) = diff at *
  generalize int64 (roundTime round) = expected at *
  generalize roundTime round = time at *
  constructor
  · intro hle
    split at hle
    · -- The opposite of the least `int64` is itself, and negative.
      by_cases hmin : diff = -2 ^ 63
      · exact ⟨k2 - k1, .inl (by omega)⟩
      · exact ⟨k2 - k1, .inr (by omega)⟩
    · exact ⟨k2 - k1, .inr (by omega)⟩
  · rintro ⟨k, hk | hk⟩
    · split <;> omega
    · split <;> omega

lemma checkSkew_ok {now : Int} {b : Beacon} (hround : 0 < b.round)
    (hdrand : b.source = lit "drand") {u : Unit} :
    checkSkew now (some b) = .ok u ↔ skewOf (now / 1000000000) b.round ≤ defaultMaxClockSkew := by
  simp only [checkSkew, checkIf_ok, ensure_ok, hround, hdrand, and_self, forall_const]
  rfl

def readsAt (C : Crypto) (now : Int) (b : Beacon) : Reads where
  now := now * 1000000000
  beacon := some b
  signer := {
    origin := []
    pub := []
    epoch := 0
    now := 0
    threshold := none
    fwsSign := fun msg => .ok (C.edSign [] msg)
    quantumSign := none }

lemma readsAt_signs {now : Int} {b : Beacon} (hround : 0 < b.round)
    (hdrand : b.source = lit "drand") (hle : skewOf now b.round ≤ defaultMaxClockSkew) :
    ∃ c, signCheckpoint .sample (readsAt .sample now b) 0 [] [] = .ok c := by
  have hclock : now * 1000000000 / 1000000000 = now := by omega
  have hskew : checkSkew (now * 1000000000) (some b) = .ok () := by
    rw [checkSkew_ok hround hdrand, hclock]
    exact hle
  exact ⟨_, by rw [signCheckpoint, readsAt, hskew]; rfl⟩

/-- **The clock-skew guard**: whatever else the operator reads, a checkpoint that embeds the round
is minted only when the clock is within the limit of the round's time, exactly when the two are not
aliased. -/
theorem skew_guard_iff (b : Beacon) (hround : 0 < b.round) (hdrand : b.source = lit "drand")
    (now : Int) :
    (∀ (C : Crypto) (r : Reads) (size : Nat) (root head : Bytes) (c : Checkpoint),
      r.beacon = some b → r.now / 1000000000 = now →
      signCheckpoint C r size root head = .ok c →
      |now - (1692489600 + 3 * b.round)| ≤ 300) ↔ ¬ SkewAliased now b.round := by
  constructor
  · rintro hguard ⟨k, halias⟩
    have hle : skewOf now b.round ≤ defaultMaxClockSkew :=
      (skewOf_le_iff now b.round).mpr ⟨k, halias.imp_right And.right⟩
    have hclock : now * 1000000000 / 1000000000 = now := by omega
    obtain ⟨c, hc⟩ := readsAt_signs hround hdrand hle
    have hmint := hguard .sample (readsAt .sample now b) 0 [] [] c rfl hclock hc
    simp only [abs_le, roundTime, defaultMaxClockSkew] at hmint halias
    omega
  · rintro halias C r size root head c hb rfl hsign
    simp only [signCheckpoint, bind_ok, hb, checkSkew_ok hround hdrand] at hsign
    obtain ⟨-, hle, -⟩ := hsign
    obtain ⟨k, hk | hk⟩ := (skewOf_le_iff _ _).mp hle
    · exact absurd ⟨k, .inl hk⟩ halias
    · by_cases hzero : k = 0
      · subst hzero
        simp only [abs_le, roundTime, defaultMaxClockSkew] at hk ⊢
        omega
      · exact absurd ⟨k, .inr ⟨hzero, hk⟩⟩ halias

def drandRound (round : Nat) : Beacon where
  source := lit "drand"
  round := round
  value := []

theorem skew_guard_iff_today :
    ¬ SkewAliased 1782489600 30000000 ∧
      ∃ c, signCheckpoint .sample (readsAt .sample 1782489600 (drandRound 30000000)) 0 [] []
          = .ok c ∧
        |(1782489600 : Int) - (1692489600 + 3 * (30000000 : Nat))| ≤ 300 := by
  have halias : ¬ SkewAliased 1782489600 30000000 := by
    rintro ⟨k, hk | ⟨hzero, hk⟩⟩
    · simp only [roundTime] at hk
      omega
    · simp only [roundTime, defaultMaxClockSkew, abs_le] at hk
      omega
  obtain ⟨c, hc⟩ := readsAt_signs (b := drandRound 30000000) (by decide) rfl
    (show skewOf 1782489600 30000000 ≤ defaultMaxClockSkew by decide)
  exact ⟨halias, c, hc,
    (skew_guard_iff (drandRound 30000000) (by decide) rfl 1782489600).mpr halias
      .sample _ 0 [] [] c rfl (by decide) hc⟩

/-- **A round of the far future passes the guard**: at the second 1782489600 the round
6148914691266517205, whose time is 2^64 - 1 seconds later, is embedded. -/
theorem aliased_round_minted :
    (signCheckpoint .sample (readsAt .sample 1782489600 (drandRound 6148914691266517205))
        0 [] []).isOk = true ∧
      ¬ |(1782489600 : Int) - (1692489600 + 3 * (6148914691266517205 : Nat))| ≤ 300 := by
  constructor
  · decide +kernel
  · rw [abs_le]
    omega

end Stele.Core
