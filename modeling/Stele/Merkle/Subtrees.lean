import Stele.Merkle.Resident

/-!
# Recomputed subtrees in machine arithmetic (`pkg/merkle`)

`subRoot` and `computeNode` count leaves in `uint64`. Here they are with arithmetic that has no
result where an operation would overflow, with a bound for the recursion and for the doubling loop,
and with the leaves they ask for. On trees of at most `2 ^ 63` leaves nothing overflows, and they
are the functions of the model with natural numbers.
-/

namespace Stele

open Lib Option

/-! ## Checked arithmetic -/

def add64 (a b : Nat) : Option Nat := if a + b < 2 ^ 64 then some (a + b) else none

def sub64 (a b : Nat) : Option Nat := if b ≤ a then some (a - b) else none

def mul64 (a b : Nat) : Option Nat := if a * b < 2 ^ 64 then some (a * b) else none

/-- `NodeID.Coverage`: shifts drop the high bits. -/
def coverage64 (id : NodeID) : Nat × Nat :=
  (id.index * 2 ^ id.level % 2 ^ 64, (id.index + 1) % 2 ^ 64 * 2 ^ id.level % 2 ^ 64)

lemma coverage64_stop {id : NodeID} (hlevel : id.level ≤ 63)
    (hstart : (coverage64 id).1 < 2 ^ 63) :
    (coverage64 id).2 = (coverage64 id).1 + 2 ^ id.level := by
  have hpow : 2 ^ id.level ≤ 2 ^ 63 := Nat.pow_le_pow_right (by decide) hlevel
  have hsum : (id.index + 1) % 2 ^ 64 * 2 ^ id.level % 2 ^ 64 =
      (id.index * 2 ^ id.level % 2 ^ 64 + 2 ^ id.level) % 2 ^ 64 := by
    rw [Nat.mod_mul_mod, Nat.mod_add_mod, Nat.add_mul, Nat.one_mul]
  have hfits : (coverage64 id).1 + 2 ^ id.level < 2 ^ 64 := by omega
  exact hsum.trans (Nat.mod_eq_of_lt hfits)

namespace Tree

variable {R : RangeImpl Bytes}

/-- The loop of `subRoot`. -/
def splitLoop64 : Nat → Nat → Nat → Option Nat
  | 0, _, _ => none
  | fuel + 1, k, span => do
    let double ← mul64 k 2
    if double < span then splitLoop64 fuel double span else return k

section
variable (C : Crypto) (read : LeafReads)

/-- `subRoot`, with the leaves that it asks for. There is no result when the arithmetic overflows or
the fuel ends. -/
def subRoot64 : Nat → Call R → Nat → Nat → Option (List Nat × Call R × Res Bytes)
  | 0, _, _, _ => none
  | fuel + 1, c, start, stop => do
    if (← add64 start 1) = stop then
      return ([start], Call.andThen (nodeHash read c ⟨0, start⟩) fun c found =>
        match found with
        | none => (c, .error (errorf "missing leaf %d" [.nat start]))
        | some h => (c, .ok h))
    else
      let span ← sub64 stop start
      let k ← splitLoop64 64 1 span
      let split ← add64 start k
      let (asked, c, left) ← subRoot64 fuel c start split
      match left with
      | .error f => return (asked, c, .error f)
      | .ok left =>
        let (asked', c, right) ← subRoot64 fuel c split stop
        match right with
        | .error f => return (asked ++ asked', c, .error f)
        | .ok right => return (asked ++ asked', c, .ok (hashChildren C left right))

def computeNode64 (c : Call R) (id : NodeID) : Option (List Nat × Call R × Res Bytes) :=
  let start := (coverage64 id).1
  let stop := if c.tree.size < (coverage64 id).2 then c.tree.size else (coverage64 id).2
  if stop ≤ start then
    some ([], c, .error (errorf "empty coverage for L%d[%d]" [.nat id.level, .nat id.index]))
  else subRoot64 C read (stop - start) c start stop

end

/-- The doubling ends below `2 ^ 63`, at the largest power of two below the span. -/
lemma splitLoop64_eq {fuel j span : Nat} (hlt : 2 ^ j < span) (hspan : span ≤ 2 ^ 63)
    (hfuel : 63 ≤ j + fuel) : splitLoop64 fuel (2 ^ j) span = some (splitPoint span) := by
  have hj : j < 63 := (Nat.pow_lt_pow_iff_right Nat.one_lt_two).mp (Nat.lt_of_lt_of_le hlt hspan)
  induction fuel generalizing j with
  | zero => omega
  | succ fuel ih =>
    have hdouble : 2 ^ j * 2 = 2 ^ (j + 1) := (Nat.pow_succ 2 j).symm
    have hfits : 2 ^ j * 2 < 2 ^ 64 := by omega
    rw [splitLoop64, mul64, if_pos hfits]
    by_cases hmore : 2 ^ j * 2 < span
    · rw [hdouble] at hmore
      have hnext := (Nat.pow_lt_pow_iff_right Nat.one_lt_two).mp (Nat.lt_of_lt_of_le hmore hspan)
      simpa [hdouble, hmore] using ih hmore (by omega) hnext
    · simp [hmore, splitPoint_eq hlt (Nat.not_lt.mp hmore)]

variable {C : Crypto} {read : LeafReads}

/-- **Below `2 ^ 63` leaves nothing overflows.** The function is that of the model, and when it
returns a hash it has asked for every leaf of the range once, from left to right. -/
theorem subRoot64_eq {fuel start stop : Nat} (c : Call R) (hlt : start < stop)
    (hstop : stop ≤ 2 ^ 63) (hfuel : stop - start ≤ fuel) :
    ∃ asked, subRoot64 C read fuel c start stop = some (asked, subRoot C read fuel c start stop) ∧
      ∀ h, (subRoot C read fuel c start stop).2 = .ok h →
        asked = List.range' start (stop - start) := by
  induction fuel generalizing c start stop with
  | zero => omega
  | succ fuel ih =>
    have hone : add64 start 1 = some (start + 1) := if_pos (by omega)
    rw [subRoot64, subRoot, hone]
    by_cases hleaf : start + 1 = stop
    · subst hleaf
      simp only [bind_eq_bind, bind_some, ↓reduceIte]
      exact ⟨_, rfl, fun _ _ => by simp⟩
    · have hspan : 2 ≤ stop - start := by omega
      have hsmall := splitPoint_lt hspan
      have hpos := splitPoint_pos (stop - start)
      have hloop : splitLoop64 64 1 (stop - start) = some (splitPoint (stop - start)) :=
        splitLoop64_eq (j := 0) (by omega) (by omega) (by omega)
      have hsplit : splitLoop (stop - start) 1 (stop - start) = splitPoint (stop - start) := by
        simpa using @splitLoop_eq (stop - start) 0 (stop - start) (by omega) (by omega)
      have hsub : sub64 stop start = some (stop - start) := if_pos (by omega)
      rw [if_neg hleaf]
      simp only [bind_eq_bind, bind_some, if_neg hleaf, hsub, hloop, hsplit]
      generalize splitPoint (stop - start) = k at hpos hsmall
      have hadd : add64 start k = some (start + k) := if_pos (by omega)
      obtain ⟨asked, hleft, hasked⟩ := @ih start (start + k) c (by omega) (by omega) (by omega)
      rw [hadd, bind_some, hleft]
      rcases hl : subRoot C read fuel c start (start + k) with ⟨c', f | left⟩
      · exact ⟨asked, rfl, fun _ h => by cases h⟩
      · obtain ⟨asked', hright, hasked'⟩ := @ih (start + k) stop c' (by omega) (by omega) (by omega)
        rw [hl] at hasked
        simp only [bind_some, hright, Call.andThen]
        rcases hr : subRoot C read fuel c' (start + k) stop with ⟨c'', f | right⟩
        · exact ⟨asked ++ asked', rfl, fun _ h => by cases h⟩
        · rw [hr] at hasked'
          refine ⟨asked ++ asked', rfl, fun _ _ => ?_⟩
          rw [hasked left rfl, hasked' right rfl, Nat.add_sub_cancel_left, List.range'_append_1]
          congr 1
          omega

section
variable {RngHolds : R.Rng → List Bytes → Prop}
  (hR : R.Lawful (hashChildren C) (emptyRoot C) RngHolds) {leaves : List Bytes} {c : Call R}
  (h : c.Ready C RngHolds leaves) (hread : ReadsOf leaves read) (hok : NoFault read)
include hR h hread hok

lemma subRoot64_spec {fuel start stop : Nat} (hlt : start < stop) (hstop : stop ≤ c.tree.size)
    (hsize : c.tree.size ≤ 2 ^ 63) (hfuel : stop - start ≤ fuel) :
    ∃ c', subRoot64 C read fuel c start stop = some (List.range' start (stop - start), c',
      .ok (rfc6962Root C (segment leaves start stop))) := by
  have hvalue : (subRoot C read fuel c start stop).2 =
      .ok (rfc6962Root C (segment leaves start stop)) :=
    (subRoot_spec hread hlt (size_eq hR h.holds ▸ hstop) hfuel h).value hok
  obtain ⟨asked, hrun, hasked⟩ := @subRoot64_eq R C read fuel start stop c hlt
    (Nat.le_trans hstop hsize) hfuel
  rw [hrun, hasked _ hvalue, ← hvalue]
  exact ⟨_, rfl⟩

lemma computeNode64_spec {id : NodeID} (hlevel : id.level ≤ 63)
    (hstart : (coverage64 id).1 < c.tree.size) (hsize : c.tree.size ≤ 2 ^ 63) :
    ∃ c', computeNode64 C read c id = some (List.range' (coverage64 id).1
        (min (coverage64 id).2 c.tree.size - (coverage64 id).1), c',
      .ok (rfc6962Root C
        (segment leaves (coverage64 id).1 (min (coverage64 id).2 c.tree.size)))) := by
  have hstop := coverage64_stop hlevel (Nat.lt_of_lt_of_le hstart hsize)
  have hpos := Nat.two_pow_pos id.level
  have hclip : (if c.tree.size < (coverage64 id).2 then c.tree.size else (coverage64 id).2) =
      min (coverage64 id).2 c.tree.size := by
    split <;> omega
  unfold computeNode64
  simp only [hclip]
  rw [if_neg (by omega)]
  exact subRoot64_spec hR h hread hok (by omega) (Nat.min_le_right _ _) hsize (Nat.le_refl _)

end

/-- **A recomputed subtree is the one of RFC 6962.** Every history of a tree leaves it ready. From
there, also in the middle of a call, with at most `2 ^ 63` leaves and a store that has them:
`subRoot` ends without an overflow, asks for every leaf of the range once and returns the tree hash
of the range; and `computeNode` does so for the coverage of a node up to the size of the tree. -/
theorem recomputed_subtrees (C : Crypto) {RngHolds : R.Rng → List Bytes → Prop}
    (hR : R.Lawful (hashChildren C) (emptyRoot C) RngHolds)
    (hrep : R.Reports (hashChildren C) (emptyRoot C) RngHolds) (P : ProofImpl Bytes) :
    (∀ maxInternalNodes maxLeafNodes ls us, ls.Faithful [] → TrueUses [] us →
      Call.Ready C RngHolds (appended us)
        ⟨run (use C P) (newBoundedTreeWithStore R maxInternalNodes maxLeafNodes ls) us, 0⟩) ∧
    ∀ (leaves : List Bytes) (c : Call R) (read : LeafReads), c.Ready C RngHolds leaves →
      c.tree.size ≤ 2 ^ 63 → ReadsOf leaves read → NoFault read →
      c.tree.size = leaves.length ∧
      (∀ start stop fuel, start < stop → stop ≤ c.tree.size → stop - start ≤ fuel →
        ∃ c', subRoot64 C read fuel c start stop = some (List.range' start (stop - start), c',
          .ok (rfc6962Root C (segment leaves start stop)))) ∧
      ∀ id : NodeID, id.level ≤ 63 → (coverage64 id).1 < c.tree.size →
        ∃ c', computeNode64 C read c id = some (List.range' (coverage64 id).1
            (min (coverage64 id).2 c.tree.size - (coverage64 id).1), c',
          .ok (rfc6962Root C
            (segment leaves (coverage64 id).1 (min (coverage64 id).2 c.tree.size)))) :=
  ⟨fun _ _ _ _ hls hus => (kept_history hR hrep P _ _ hls hus).ready,
    fun _ _ _ h hsize hread hok => ⟨size_eq hR h.holds,
      fun _ _ _ hlt hstop hfuel => subRoot64_spec hR h hread hok hlt hstop hsize hfuel,
      fun _ hlevel hstart => computeNode64_spec hR h hread hok hlevel hstart hsize⟩⟩

theorem recomputed_subtrees_three : ∃ c', subRoot64 .sample (readsFrom [[1], [2], [3]]) 3
    ⟨run (use .sample (pathTree (hashChildren .sample) (emptyRoot .sample)))
      (newBoundedTreeWithStore (leafList (hashChildren .sample) (emptyRoot .sample)) 1 1 .adapter)
      failingHistory, 0⟩ 0 3 =
    some ([0, 1, 2], c', .ok (rfc6962Root .sample [[1], [2], [3]])) := by
  obtain ⟨hready, hall⟩ := recomputed_subtrees .sample
    (leafList_lawful (hashChildren .sample) (emptyRoot .sample)) (leafList_reports _ _)
    (pathTree (hashChildren .sample) (emptyRoot .sample))
  have hhistory := hready 1 1 .adapter failingHistory trivial
    ⟨trivial, trivial, nofun, nofun, trivial, trivial⟩
  obtain ⟨hsize, hroot, -⟩ := hall _ _ _ hhistory (by decide +kernel) (readsFrom_spec _).1
    (readsFrom_spec _).2
  exact hroot 0 3 3 (by decide) (Nat.le_of_eq hsize.symm) (by decide)

end Tree

end Stele
