import Mathlib.Data.Finset.Card
import Mathlib.Data.Finset.Image

/-!
# Counting distinct voters

A quorum check walks a list of votes once and counts each voter once: a vote is counted when it is
good and its voter has not been counted before. `tallyFrom` is that loop, and `tallyFrom_eq` says
what it computes: the number of voters with a good vote. An earlier bad vote of a voter does not
mask a later good one, because only a counted vote marks its voter.
-/

namespace Lib

section
variable {α K : Type} [DecidableEq K] (good : α → Bool) (key : α → K)

def tallyFrom : List K → List α → Nat
  | _, [] => 0
  | seen, a :: l =>
    if key a ∈ seen then tallyFrom seen l
    else if good a then tallyFrom (key a :: seen) l + 1
    else tallyFrom seen l

def voters (l : List α) : Finset K := ((l.filter good).map key).toFinset

variable {good key}

lemma mem_voters {l : List α} {k : K} :
    k ∈ voters good key l ↔ ∃ a ∈ l, good a = true ∧ key a = k := by
  simp [voters, and_assoc]

lemma voters_cons (a : α) (l : List α) :
    voters good key (a :: l) =
      if good a then insert (key a) (voters good key l) else voters good key l := by
  unfold voters
  by_cases h : good a = true
  · simp [h]
  · simp [h]

lemma tallyFrom_eq (seen : List K) (l : List α) :
    tallyFrom good key seen l = (voters good key l \ seen.toFinset).card := by
  induction l generalizing seen with
  | nil => simp [tallyFrom, voters]
  | cons a l ih =>
    rw [tallyFrom, voters_cons]
    by_cases hs : key a ∈ seen
    · -- The voter was counted before: adding it to the voters changes nothing.
      have hmem : key a ∈ seen.toFinset := List.mem_toFinset.mpr hs
      rw [if_pos hs, ih]
      split
      · rw [Finset.insert_sdiff_of_mem _ hmem]
      · rfl
    · have hmem : key a ∉ seen.toFinset := fun h => hs (List.mem_toFinset.mp h)
      rw [if_neg hs]
      by_cases hg : good a = true
      · -- The counted voter leaves the voters still to be counted.
        have hsplit : insert (key a) (voters good key l) \ seen.toFinset =
            insert (key a) (voters good key l \ insert (key a) seen.toFinset) := by
          ext k
          by_cases hk : k = key a
          · subst hk
            simp [hmem]
          · simp [hk]
        rw [if_pos hg, if_pos hg, ih, List.toFinset_cons, hsplit, Finset.card_insert_of_notMem]
        simp
      · rw [if_neg hg, if_neg hg, ih]

lemma tally_eq (l : List α) : tallyFrom good key [] l = (voters good key l).card := by
  rw [tallyFrom_eq]
  simp

end

end Lib
