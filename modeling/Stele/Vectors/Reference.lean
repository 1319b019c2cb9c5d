import Stele.Lib.Climb
import Stele.Merkle.Bounded

/-!
# The Python reference verifier (`testdata/vectors/verify_vectors.py`)

The script checks Merkle proofs with loops over the bits of an index. Integers are those of Python,
without a bound; the loops that shift bits halve their number, so that the number itself is fuel.
-/

namespace Stele.Vectors

open Lib List

section
variable (C : Crypto)

def rfc6962RootFuel : Nat → List Bytes → Bytes
  | _, [] => C.sha256 []
  | _, [leaf] => hashLeaf C leaf
  | 0, _ => C.sha256 []
  | fuel + 1, leaves =>
    let k := Tree.splitLoop leaves.length 1 leaves.length
    hashChildren C (rfc6962RootFuel fuel (leaves.take k)) (rfc6962RootFuel fuel (leaves.drop k))

def rfc6962RootOf (leaves : List Bytes) : Bytes := rfc6962RootFuel C leaves.length leaves

def shiftEven : Nat → Nat → Nat → Nat × Nat
  | 0, fn, sn => (fn, sn)
  | fuel + 1, fn, sn =>
    if fn % 2 = 0 ∧ fn ≠ 0 then shiftEven fuel (fn / 2) (sn / 2) else (fn, sn)

def shiftOdd : Nat → Nat → Nat → Nat × Nat
  | 0, fn, sn => (fn, sn)
  | fuel + 1, fn, sn => if fn % 2 = 1 then shiftOdd fuel (fn / 2) (sn / 2) else (fn, sn)

def inclusionLoop : Nat → Nat → Bytes → List Bytes → Option (Bytes × Nat)
  | _, sn, r, [] => some (r, sn)
  | fn, sn, r, p :: proof =>
    if sn = 0 then none
    else if fn % 2 = 1 ∨ fn = sn then
      let (fn, sn) := if fn % 2 = 0 then shiftEven fn fn sn else (fn, sn)
      inclusionLoop (fn / 2) (sn / 2) (hashChildren C p r) proof
    else inclusionLoop (fn / 2) (sn / 2) (hashChildren C r p) proof

def verifyInclusion (idx treeSize : Nat) (leafHash : Bytes) (proof : List Bytes) (root : Bytes) :
    Bool :=
  if treeSize ≤ idx then false
  else
    match inclusionLoop C idx (treeSize - 1) leafHash proof with
    | none => false
    | some (r, sn) => r = root ∧ sn = 0

def consistencyLoop : Nat → Nat → Bytes → Bytes → List Bytes → Option (Bytes × Bytes × Nat)
  | _, sn, fr, sr, [] => some (fr, sr, sn)
  | fn, sn, fr, sr, c :: nodes =>
    if sn = 0 then none
    else if fn % 2 = 1 ∨ fn = sn then
      let (fn, sn) := shiftEven fn fn sn
      consistencyLoop (fn / 2) (sn / 2) (hashChildren C c fr) (hashChildren C c sr) nodes
    else consistencyLoop (fn / 2) (sn / 2) fr (hashChildren C sr c) nodes

def isPowerOfTwo (n : Nat) : Bool := 0 < n ∧ n &&& (n - 1) = 0

def verifyConsistency (oldSize newSize : Nat) (proof : List Bytes) (oldRoot newRoot : Bytes) :
    Bool :=
  if oldSize = newSize then proof = [] ∧ oldRoot = newRoot
  else if oldSize = 0 then proof = []
  else
    let (fn, sn) := shiftOdd (oldSize - 1) (oldSize - 1) (newSize - 1)
    match (if isPowerOfTwo oldSize then oldRoot :: proof else proof) with
    | [] => false
    | first :: nodes =>
      match consistencyLoop C fn sn first first nodes with
      | none => false
      | some (fr, sr, sn) => fr = oldRoot ∧ sr = newRoot ∧ sn = 0

end

/-! ## The loops -/

section
variable {C : Crypto} {fuel : Nat}

lemma rfc6962RootFuel_eq {leaves : List Bytes} (h : leaves.length ≤ fuel) :
    rfc6962RootFuel C fuel leaves = rfc6962Root C (leaves.map (hashLeaf C)) := by
  induction fuel generalizing leaves with
  | zero =>
    rw [length_eq_zero_iff.mp (Nat.le_zero.mp h)]
    rfl
  | succ fuel ih =>
    match leaves, h with
    | [], _ => rfl
    | [leaf], _ => rfl
    | a :: b :: leaves, h =>
      have hlong : 2 ≤ (a :: b :: leaves).length := by simp
      obtain ⟨hl, hr⟩ := split_length_le hlong h
      have hsplit : Tree.splitLoop (a :: b :: leaves).length 1 (a :: b :: leaves).length =
          splitPoint (a :: b :: leaves).length := by
        simpa using @Tree.splitLoop_eq (a :: b :: leaves).length 0 (a :: b :: leaves).length
          (by simp) (by simp)
      have hroot := mth_split (hashChildren C) (emptyRoot C)
        (l := (a :: b :: leaves).map (hashLeaf C)) (by simp)
      rw [length_map, ← map_take, ← map_drop] at hroot
      simp only [rfc6962RootFuel, hsplit]
      rw [ih hl, ih hr]
      exact hroot.symm

lemma rfc6962RootOf_eq (leaves : List Bytes) :
    rfc6962RootOf C leaves = rfc6962Root C (leaves.map (hashLeaf C)) :=
  rfc6962RootFuel_eq (Nat.le_refl _)

variable {fn sn : Nat}

lemma shiftEven_odd (h : fn % 2 = 1) : shiftEven fuel fn sn = (fn, sn) := by
  cases fuel with
  | zero => rfl
  | succ => rw [shiftEven, if_neg (by omega)]

lemma shiftEven_last (h0 : fn ≠ 0) (hfuel : fn ≤ fuel) :
    ∃ q, q % 2 = 1 ∧ shiftEven fuel fn fn = (q, q) ∧ sides fn fn = sides q q := by
  induction fuel generalizing fn with
  | zero => omega
  | succ fuel ih =>
    rcases Nat.mod_two_eq_zero_or_one fn with heven | hodd
    · obtain ⟨q, hq, hshift, hsides⟩ := @ih (fn / 2) (by omega) (by omega)
      refine ⟨q, hq, ?_, (sides_last heven).trans hsides⟩
      rw [shiftEven, if_pos ⟨heven, h0⟩, hshift]
    · exact ⟨fn, hodd, shiftEven_odd hodd, rfl⟩

lemma shiftOdd_sides (sn : Nat) (hfuel : fn ≤ fuel) :
    sides (shiftOdd fuel fn sn).1 (shiftOdd fuel fn sn).2 = sidesAbove fn sn := by
  induction fuel generalizing fn sn with
  | zero =>
    obtain rfl := Nat.le_zero.mp hfuel
    exact (sidesAbove_even rfl).symm
  | succ fuel ih =>
    rw [shiftOdd]
    rcases Nat.mod_two_eq_zero_or_one fn with heven | hodd
    · rw [if_neg (by omega), sidesAbove_even heven]
    · rw [if_pos hodd, ih _ (by omega), sidesAbove_odd hodd]

lemma shiftOdd_le (h : fn ≤ sn) : (shiftOdd fuel fn sn).1 ≤ (shiftOdd fuel fn sn).2 := by
  induction fuel generalizing fn sn with
  | zero => exact h
  | succ fuel ih =>
    rw [shiftOdd]
    split
    · exact ih (Nat.div_le_div_right h)
    · exact h

lemma sides_join (h0 : sn ≠ 0) (hle : fn ≤ sn) (hjoin : fn % 2 = 1 ∨ fn = sn) :
    ∃ fn' sn', shiftEven fn fn sn = (fn', sn') ∧ fn' ≤ sn' ∧
      sides fn sn = .left :: sides (fn' / 2) (sn' / 2) := by
  by_cases hodd : fn % 2 = 1
  · exact ⟨fn, sn, shiftEven_odd hodd, hle, sides_odd h0 hodd⟩
  · obtain rfl := hjoin.resolve_left hodd
    obtain ⟨q, hq, hshift, hsides⟩ := shiftEven_last h0 (Nat.le_refl fn)
    exact ⟨q, q, hshift, Nat.le_refl q, hsides.trans (sides_odd (by omega) hq)⟩

lemma climb_ok (hle : fn ≤ sn) {fr sr old new : Bytes} {nodes : List Bytes} :
    consistencyLoop C fn sn fr sr nodes = some (old, new, 0) ↔
      nodes.length = (sides fn sn).length ∧
        riseOld (hashChildren C) fr ((sides fn sn).zip nodes) = old ∧
        rise (hashChildren C) sr ((sides fn sn).zip nodes) = new := by
  induction nodes generalizing fn sn fr sr with
  | nil =>
    rw [zip_nil_right]
    by_cases h0 : sn = 0
    · subst h0
      simp [consistencyLoop, sides_zero, riseOld, rise]
    · have hne : (sides fn sn).length ≠ 0 := by
        by_cases hjoin : fn % 2 = 1 ∨ fn = sn
        · obtain ⟨fn', sn', -, -, hsides⟩ := sides_join h0 hle hjoin
          simp [hsides]
        · rw [sides_even (by omega) (by omega)]
          simp
      simp [consistencyLoop, h0, hne.symm]
  | cons c nodes ih =>
    rw [consistencyLoop]
    by_cases h0 : sn = 0
    · subst h0
      simp [sides_zero]
    · rw [if_neg h0]
      by_cases hjoin : fn % 2 = 1 ∨ fn = sn
      · obtain ⟨fn', sn', hshift, hle', hsides⟩ := sides_join h0 hle hjoin
        rw [if_pos hjoin, hshift, hsides]
        simp only [ih (Nat.div_le_div_right hle')]
        simp [riseOld, rise, Side.pair]
      · rw [if_neg hjoin, sides_even (by omega) (by omega), ih (Nat.div_le_div_right hle)]
        simp [riseOld, rise, Side.pair]

lemma inclusionLoop_eq (fn sn : Nat) (fr r : Bytes) (proof : List Bytes) :
    inclusionLoop C fn sn r proof = (consistencyLoop C fn sn fr r proof).map Prod.snd := by
  induction proof generalizing fn sn fr r with
  | nil => rfl
  | cons p proof ih =>
    rw [inclusionLoop, consistencyLoop]
    have hshift : (if fn % 2 = 0 then shiftEven fn fn sn else (fn, sn)) = shiftEven fn fn sn := by
      split
      · rfl
      · exact (shiftEven_odd (by omega)).symm
    rw [hshift]
    split
    · rfl
    · split
      · exact ih _ _ _ _
      · exact ih _ _ _ _

variable {n : Nat}

lemma verifyInclusion_iff {idx : Nat} (hidx : idx < n) {leaf root : Bytes} {proof : List Bytes} :
    verifyInclusion C idx n leaf proof root = true ↔
      proof.length = (sides idx (n - 1)).length ∧
        rise (hashChildren C) leaf ((sides idx (n - 1)).zip proof) = root := by
  have hle : idx ≤ n - 1 := by omega
  rw [verifyInclusion, if_neg (by omega), inclusionLoop_eq _ _ leaf]
  have hloop : ∀ out : Option (Bytes × Bytes × Nat), (match out.map Prod.snd with
      | none => false
      | some (r, sn) => decide (r = root ∧ sn = 0)) = true ↔ ∃ old, out = some (old, root, 0) := by
    rintro (_ | ⟨old, r, sn⟩) <;> simp
  rw [hloop]
  simp only [climb_ok hle]
  simp

lemma verifyConsistency_iff {m : Nat} (hm : 0 < m) (hmn : m < n) {old new : Bytes}
    {proof : List Bytes} : verifyConsistency C m n proof old new = true ↔
      ∃ x xs, (if isPowerOfTwo m = true then old :: proof else proof) = x :: xs ∧
        xs.length = (sidesAbove (m - 1) (n - 1)).length ∧
        riseOld (hashChildren C) x ((sidesAbove (m - 1) (n - 1)).zip xs) = old ∧
        rise (hashChildren C) x ((sidesAbove (m - 1) (n - 1)).zip xs) = new := by
  have hle := @shiftOdd_le (m - 1) _ _ (show m - 1 ≤ n - 1 by omega)
  rw [verifyConsistency, if_neg (by omega), if_neg (by omega),
    ← shiftOdd_sides (n - 1) (Nat.le_refl (m - 1))]
  cases hnodes : (if isPowerOfTwo m = true then old :: proof else proof) with
  | nil => simp
  | cons =>
    have hloop : ∀ out : Option (Bytes × Bytes × Nat), (match out with
        | none => false
        | some (fr, sr, sn) => decide (fr = old ∧ sr = new ∧ sn = 0)) = true ↔
          out = some (old, new, 0) := by
      rintro (_ | ⟨fr, sr, sn⟩) <;> simp
    simp only [hloop, climb_ok hle, List.cons.injEq]
    simp

lemma isPowerOfTwo_iff : isPowerOfTwo n = true ↔ n.isPowerOfTwo := by
  rw [← Nat.ne_zero_and_sub_one_eq_zero_iff_isPowerOfTwo, isPowerOfTwo, decide_eq_true_iff,
    Nat.pos_iff_ne_zero]

end

/-! ## Against the tree -/

section
variable (C : Crypto)

def wayMessages (h : Bytes) (steps : List (Side × Bytes)) : List Bytes :=
  (risePairs (hashChildren C) h steps).map fun p => 1 :: (p.1 ++ p.2)

def inclusionMessages (idx n : Nat) (leafHash : Bytes) (proof : List Bytes) : List Bytes :=
  wayMessages C leafHash ((sides idx (n - 1)).zip proof)

def consistencyMessages (m n : Nat) (oldRoot : Bytes) (proof : List Bytes) : List Bytes :=
  match (if isPowerOfTwo m = true then oldRoot :: proof else proof) with
  | [] => []
  | x :: xs => wayMessages C x ((sidesAbove (m - 1) (n - 1)).zip xs)

variable {C}

lemma risePairs_length {h : Bytes} {steps : List (Side × Bytes)} (hh : h.length = 32)
    (hsteps : ∀ s ∈ steps, s.2.length = 32) {p : Bytes × Bytes}
    (hp : p ∈ risePairs (hashChildren C) h steps) : p.1.length = 32 := by
  induction steps generalizing h with
  | nil => cases hp
  | cons s steps ih =>
    obtain ⟨side, x⟩ := s
    rcases mem_cons.mp hp with rfl | hp
    · cases side with
      | left => exact hsteps _ mem_cons_self
      | right => exact hh
    · exact ih (C.sha256_length _) (fun s hs => hsteps s (mem_cons_of_mem _ hs)) hp

lemma apart_of_collisionFree {h : Bytes} {ss : List Side} {xs leaves : List Bytes}
    (hh : h.length = 32) (hxs : ∀ x ∈ xs, x.length = 32) (hleaves : ∀ x ∈ leaves, x.length = 32)
    (hcf : C.CollisionFree (wayMessages C h (ss.zip xs) ++ treeMessages C leaves)) :
    Apart (hashChildren C) (emptyRoot C) h (ss.zip xs) leaves := by
  intro p hp q hq hnode
  have hmsg := hcf _ (mem_append_left _ (mem_map_of_mem hp)) _
    (mem_append_right _ (mem_map_of_mem hq)) hnode
  have hlen := risePairs_length hh (fun s hs => hxs _ (of_mem_zip hs).2) hp
  obtain ⟨hfst, hsnd⟩ := append_inj (List.cons.inj hmsg).2
    (hlen.trans (nodePairs_length hleaves hq).symm)
  exact Prod.ext hfst hsnd

lemma hashLeaf_lengths (leaves : List Bytes) : ∀ x ∈ leaves.map (hashLeaf C), x.length = 32 := by
  intro x hx
  obtain ⟨leaf, -, rfl⟩ := mem_map.mp hx
  exact hashLeaf_length C leaf

lemma beginning {leaves hashes : List Bytes} (h : leaves.map (hashLeaf C) <+: hashes) :
    hashes.take leaves.length = leaves.map (hashLeaf C) ∧ leaves.length ≤ hashes.length := by
  have htake := prefix_iff_eq_take.mp h
  have hle := h.length_le
  rw [length_map] at htake hle
  exact ⟨htake.symm, hle⟩

open Tree

variable {R : RangeImpl Bytes} {RngHolds : R.Rng → List Bytes → Prop}
  (hR : R.Lawful (hashChildren C) (emptyRoot C) RngHolds)
  (hrep : R.Reports (hashChildren C) (emptyRoot C) RngHolds)
  {P : ProofImpl Bytes} (hP : P.Rfc6962 (hashChildren C) (emptyRoot C))
  (maxInternalNodes maxLeafNodes : Nat) (ls : LeafStore) (us : List Use)
  (hus : Faithful [] us) (read : LeafReads) (hread : ReadsOf (appended us) read)
  (hok : NoFault read) (leaves : List Bytes) (hleaves : leaves.map (hashLeaf C) <+: appended us)
include hR hrep hP hus hread hok hleaves

/-- **The reference verifier decides inclusion against the Go tree.** After any history of a tree
that starts with the leaves, it accepts leaf `idx` with the proof that the tree returns, and what it
accepts against the root, if nothing collides, is that leaf with that proof. -/
theorem inclusion_decided (idx : Nat) (hidx : idx < leaves.length) :
    ∃ leaf proof, leaves[idx]? = some leaf ∧
      (inclusionProof C read P
        ⟨run (use C P) (newBoundedTreeWithStore R maxInternalNodes maxLeafNodes ls) us, 0⟩
        idx leaves.length).2 = .ok proof ∧
      proof = auditPath (hashChildren C) (emptyRoot C) idx (leaves.map (hashLeaf C)) ∧
      verifyInclusion C idx leaves.length (hashLeaf C leaf) proof (rfc6962RootOf C leaves) = true ∧
      ∀ h xs, h.length = 32 → (∀ x ∈ xs, x.length = 32) →
        C.CollisionFree (inclusionMessages C idx leaves.length h xs ++
          treeMessages C (leaves.map (hashLeaf C))) →
        verifyInclusion C idx leaves.length h xs (rfc6962RootOf C leaves) = true →
        h = hashLeaf C leaf ∧ xs = proof := by
  have hready := ready_history hR hrep hP maxInternalNodes maxLeafNodes ls hus
  obtain ⟨htake, hle⟩ := beginning hleaves
  have hproof := (inclusionProof_path hR hP hread hready hidx hle).value hok
  rw [htake] at hproof
  have hget : (leaves.map (hashLeaf C))[idx]? = some (hashLeaf C leaves[idx]) := by simp [hidx]
  have hpath := rise_auditPath (hashChildren C) (emptyRoot C) hget
  rw [length_map] at hpath
  refine ⟨_, _, getElem?_eq_getElem hidx, hproof, rfl, ?_, fun h xs hh hxs hcf hacc => ?_⟩
  · rw [verifyInclusion_iff hidx, rfc6962RootOf_eq]
    exact hpath
  · rw [verifyInclusion_iff hidx, rfc6962RootOf_eq] at hacc
    have hapart := apart_of_collisionFree hh hxs (hashLeaf_lengths leaves) hcf
    have hlen : (leaves.map (hashLeaf C)).length = leaves.length := length_map ..
    rw [← hlen] at hacc hapart
    obtain ⟨hleaf, hxs⟩ := auditPath_of_rise (hlen ▸ hidx) hacc.1 hapart hacc.2
    exact ⟨Option.some.inj (hleaf.symm.trans hget), hxs⟩

/-- **The reference verifier decides consistency against the Go tree.** It accepts the proof that
the tree returns for the roots of the first `m` and of all leaves, and what it accepts against the
root of all leaves, if nothing collides, has the root of the first `m` as its old root. -/
theorem consistency_decided (m : Nat) (hm : 0 < m) (hmn : m ≤ leaves.length) :
    (∃ proof, (consistencyProof C read P
        ⟨run (use C P) (newBoundedTreeWithStore R maxInternalNodes maxLeafNodes ls) us, 0⟩
        m leaves.length).2 = .ok proof ∧
      verifyConsistency C m leaves.length proof (rfc6962RootOf C (leaves.take m))
        (rfc6962RootOf C leaves) = true) ∧
      ∀ r xs, r.length = 32 → (∀ x ∈ xs, x.length = 32) →
        C.CollisionFree (consistencyMessages C m leaves.length r xs ++
          treeMessages C (leaves.map (hashLeaf C))) →
        verifyConsistency C m leaves.length xs r (rfc6962RootOf C leaves) = true →
        r = rfc6962RootOf C (leaves.take m) := by
  have hready := ready_history hR hrep hP maxInternalNodes maxLeafNodes ls hus
  obtain ⟨htake, hle⟩ := beginning hleaves
  have hproof := (consistencyProof_path hR hP hread hready hmn hle).value hok
  rw [htake, consistencyPath, if_neg (Nat.ne_of_gt hm)] at hproof
  have hlen : (leaves.map (hashLeaf C)).length = leaves.length := length_map ..
  rcases Nat.lt_or_eq_of_le hmn with hlt | rfl
  · have hml : m < (leaves.map (hashLeaf C)).length := hlen ▸ hlt
    refine ⟨⟨_, hproof, ?_⟩, fun r xs hr hxs hcf hacc => ?_⟩
    · obtain ⟨x, xs, hsub, hpath⟩ := rise_subProof (hashChildren C) (emptyRoot C) hm (.inl hml)
      obtain ⟨hpow, hnot⟩ := subProof_false (hashChildren C) (emptyRoot C) hm (.inl hml)
      rw [hlen] at hpath
      rw [verifyConsistency_iff hm hlt, rfc6962RootOf_eq, rfc6962RootOf_eq, map_take]
      refine ⟨x, xs, ?_, hpath⟩
      rw [← hsub]
      split
      · rename_i hp
        exact (hpow (isPowerOfTwo_iff.mp hp)).symm
      · rename_i hp
        exact (hnot fun h => hp (isPowerOfTwo_iff.mpr h)).symm
    · rw [verifyConsistency_iff hm hlt, rfc6962RootOf_eq] at hacc
      obtain ⟨y, ys, hnodes, hys, hold, hnew⟩ := hacc
      have hbytes : ∀ z ∈ y :: ys, z.length = 32 := by
        rw [← hnodes]
        intro z hz
        split at hz
        · rcases mem_cons.mp hz with rfl | hz
          · exact hr
          · exact hxs z hz
        · exact hxs z hz
      rw [consistencyMessages, hnodes] at hcf
      have hapart := apart_of_collisionFree (hbytes y mem_cons_self)
        (fun z hz => hbytes z (mem_cons_of_mem _ hz)) (hashLeaf_lengths leaves) hcf
      rw [← hlen] at hys hapart hold hnew
      rw [rfc6962RootOf_eq, map_take, ← hold]
      exact root_of_rise hm (.inl hml) hys hapart hnew
  · refine ⟨⟨[], ?_, ?_⟩, fun r xs hr hxs hcf hacc => ?_⟩
    · rw [hproof, ← hlen, subProof_all _ _ true (ne_nil_of_length_pos (hlen.symm ▸ hm))]
      rfl
    · simp [verifyConsistency]
    · simp only [verifyConsistency, if_pos, decide_eq_true_iff] at hacc
      rw [take_length, hacc.2]

end

def sampleLeaves : List Bytes := [[1], [2], [3]]

def sampleUses : List Tree.Use :=
  sampleLeaves.map fun leaf => .appendLeafHash (hashLeaf .sample leaf)

def sampleTree : Tree (leafList (hashChildren .sample) (emptyRoot .sample)) :=
  run (Tree.use .sample (pathTree (hashChildren .sample) (emptyRoot .sample)))
    (Tree.newBoundedTreeWithStore _ 1 1 .adapter) sampleUses

theorem inclusion_decided_sample : ∃ proof,
    (Tree.inclusionProof .sample (Tree.readsFrom (sampleLeaves.map (hashLeaf .sample)))
      (pathTree (hashChildren .sample) (emptyRoot .sample)) ⟨sampleTree, 0⟩ 1 3).2 = .ok proof ∧
    verifyInclusion .sample 1 3 (hashLeaf .sample [2]) proof
      (rfc6962RootOf .sample sampleLeaves) = true := by
  obtain ⟨leaf, proof, hleaf, hproof, -, haccept, -⟩ := inclusion_decided
    (leafList_lawful (hashChildren .sample) (emptyRoot .sample)) (leafList_reports _ _)
    (pathTree_rfc6962 _ _) 1 1 .adapter sampleUses ⟨trivial, trivial, trivial, trivial⟩ _
    (Tree.readsFrom_spec _).1 (Tree.readsFrom_spec _).2 sampleLeaves (prefix_refl _) 1
    (by decide)
  cases hleaf
  exact ⟨proof, hproof, haccept⟩

theorem consistency_decided_sample : ∃ proof,
    (Tree.consistencyProof .sample (Tree.readsFrom (sampleLeaves.map (hashLeaf .sample)))
      (pathTree (hashChildren .sample) (emptyRoot .sample)) ⟨sampleTree, 0⟩ 2 3).2 = .ok proof ∧
    verifyConsistency .sample 2 3 proof (rfc6962RootOf .sample [[1], [2]])
      (rfc6962RootOf .sample sampleLeaves) = true :=
  (consistency_decided (leafList_lawful (hashChildren .sample) (emptyRoot .sample))
    (leafList_reports _ _) (pathTree_rfc6962 _ _) 1 1 .adapter sampleUses
    ⟨trivial, trivial, trivial, trivial⟩ _ (Tree.readsFrom_spec _).1 (Tree.readsFrom_spec _).2
    sampleLeaves (prefix_refl _) 2 (by decide) (by decide)).1

end Stele.Vectors
