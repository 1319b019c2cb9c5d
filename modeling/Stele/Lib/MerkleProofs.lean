import Stele.Lib.Rfc6962

/-!
# Nodes and proofs of an RFC 6962 tree
-/

namespace Lib

open List

section
variable {H : Type} (node : H → H → H) (empty : H)

/-! ## The tree hash -/

lemma splitPoint_pos (n : Nat) : 0 < splitPoint n := Nat.two_pow_pos _

variable {n : Nat}

lemma splitPoint_lt (h : 2 ≤ n) : splitPoint n < n := by
  have hne : n - 1 ≠ 0 := by omega
  have hle : splitPoint n ≤ n - 1 := Nat.log2_self_le hne
  omega

lemma splitPoint_eq {j : Nat} (hlt : 2 ^ j < n) (hle : n ≤ 2 ^ j * 2) : splitPoint n = 2 ^ j := by
  have hpow : 2 ^ (j + 1) = 2 ^ j * 2 := Nat.pow_succ 2 j
  have hlog : (n - 1).log2 = j := by
    rw [Nat.log2_eq_iff (by omega)]
    omega
  rw [splitPoint, hlog]

variable {l : List H}

lemma mthFuel_eq_mthFuel {f g : Nat} (hf : l.length ≤ f) (hg : l.length ≤ g) :
    mthFuel node empty f l = mthFuel node empty g l := by
  induction f generalizing g l with
  | zero =>
    have hnil : l = [] := length_eq_zero_iff.mp (Nat.le_zero.mp hf)
    subst hnil
    cases g <;> rfl
  | succ f ih =>
    match l, g with
    | [], g => cases g <;> rfl
    | [h], g => cases g <;> rfl
    | a :: b :: l, 0 => simp at hg
    | a :: b :: l, g + 1 =>
      have hlt := splitPoint_lt (n := (a :: b :: l).length) (by simp)
      have hpos := splitPoint_pos (a :: b :: l).length
      generalize hsp : splitPoint (a :: b :: l).length = k at hlt hpos
      have hleft : ((a :: b :: l).take k).length ≤ f ∧ ((a :: b :: l).take k).length ≤ g := by
        rw [length_take]
        omega
      have hright : ((a :: b :: l).drop k).length ≤ f ∧ ((a :: b :: l).drop k).length ≤ g := by
        rw [length_drop]
        omega
      simp only [mthFuel, hsp]
      rw [ih hleft.1 hleft.2, ih hright.1 hright.2]

@[simp] lemma mth_singleton (h : H) : mth node empty [h] = h := rfl

/-- **The tree hash of two or more leaves.** -/
theorem mth_split (h : 2 ≤ l.length) :
    mth node empty l = node (mth node empty (l.take (splitPoint l.length)))
      (mth node empty (l.drop (splitPoint l.length))) := by
  have hlt := splitPoint_lt h
  have hpos := splitPoint_pos l.length
  match l with
  | a :: b :: l =>
    generalize hsp : splitPoint (a :: b :: l).length = k at hlt hpos
    have hunfold : mth node empty (a :: b :: l) =
        node (mthFuel node empty (l.length + 1) ((a :: b :: l).take k))
          (mthFuel node empty (l.length + 1) ((a :: b :: l).drop k)) := by
      rw [← hsp]
      rfl
    simp only [length_cons] at hlt
    rw [hunfold, mth, mth]
    congr 1
    · exact mthFuel_eq_mthFuel node empty (by simp; omega) (Nat.le_refl _)
    · exact mthFuel_eq_mthFuel node empty (by simp; omega) (Nat.le_refl _)

lemma split_length_le (h : 2 ≤ l.length) (hn : l.length ≤ n + 1) :
    (l.take (splitPoint l.length)).length ≤ n ∧ (l.drop (splitPoint l.length)).length ≤ n := by
  have hlt := splitPoint_lt h
  have hpos := splitPoint_pos l.length
  rw [length_take, length_drop]
  omega

lemma split_induction {motive : List H → Prop} (nil : motive []) (leaf : ∀ h, motive [h])
    (split : ∀ l : List H, 2 ≤ l.length → motive (l.take (splitPoint l.length)) →
      motive (l.drop (splitPoint l.length)) → motive l) (l : List H) : motive l := by
  induction hn : l.length using Nat.strongRecOn generalizing l with
  | ind n ih =>
    match l, hn with
    | [], _ => exact nil
    | [h], _ => exact leaf h
    | a :: b :: l, hn =>
      have hlong : 2 ≤ (a :: b :: l).length := by simp
      obtain ⟨hl, hr⟩ := split_length_le hlong (Nat.le_refl (l.length + 2))
      rw [length_cons, length_cons] at hn
      exact split _ hlong (ih _ (by omega) _ rfl) (ih _ (by omega) _ rfl)

/-! ## The root determines the leaves -/

def nodePairsFuel : Nat → List H → List (H × H)
  | _, [] => []
  | _, [_] => []
  | 0, _ => []
  | fuel + 1, l =>
    let k := splitPoint l.length
    (mth node empty (l.take k), mth node empty (l.drop k)) ::
      (nodePairsFuel fuel (l.take k) ++ nodePairsFuel fuel (l.drop k))

def nodePairs (l : List H) : List (H × H) := nodePairsFuel node empty l.length l

lemma nodePairsFuel_eq {f g : Nat} (hf : l.length ≤ f) (hg : l.length ≤ g) :
    nodePairsFuel node empty f l = nodePairsFuel node empty g l := by
  induction l using split_induction generalizing f g with
  | nil => cases f <;> cases g <;> rfl
  | leaf => cases f <;> cases g <;> rfl
  | split l hlong ihl ihr =>
    obtain ⟨f, rfl⟩ := Nat.exists_eq_succ_of_ne_zero (show f ≠ 0 by omega)
    obtain ⟨g, rfl⟩ := Nat.exists_eq_succ_of_ne_zero (show g ≠ 0 by omega)
    obtain ⟨hlf, hrf⟩ := split_length_le hlong hf
    obtain ⟨hlg, hrg⟩ := split_length_le hlong hg
    match l, hlong with
    | a :: b :: l, _ =>
      simp only [nodePairsFuel]
      rw [ihl hlf hlg, ihr hrf hrg]

lemma nodePairs_split (h : 2 ≤ l.length) :
    nodePairs node empty l =
      (mth node empty (l.take (splitPoint l.length)),
        mth node empty (l.drop (splitPoint l.length))) ::
      (nodePairs node empty (l.take (splitPoint l.length)) ++
        nodePairs node empty (l.drop (splitPoint l.length))) := by
  match l, h with
  | a :: b :: l, h =>
    obtain ⟨hl, hr⟩ := split_length_le h (Nat.le_refl (l.length + 2))
    show _ :: (nodePairsFuel node empty (l.length + 1) _ ++
      nodePairsFuel node empty (l.length + 1) _) = _
    congr 2
    · exact nodePairsFuel_eq node empty hl Nat.le.refl
    · exact nodePairsFuel_eq node empty hr Nat.le.refl

/-- **Two trees of one size with one root have the same leaves**, when no two of the pairs that are
hashed collide. -/
theorem mth_inj {l' : List H} (hlen : l.length = l'.length)
    (hinj : ∀ p ∈ nodePairs node empty l, ∀ q ∈ nodePairs node empty l',
      node p.1 p.2 = node q.1 q.2 → p = q) (h : mth node empty l = mth node empty l') : l = l' := by
  induction l using split_induction generalizing l' with
  | nil => exact (length_eq_zero_iff.mp hlen.symm).symm
  | leaf =>
    obtain ⟨y, rfl⟩ := length_eq_one_iff.mp hlen.symm
    simpa using h
  | split l hlong ihl ihr =>
    have hlong' : 2 ≤ l'.length := hlen ▸ hlong
    rw [mth_split node empty hlong, mth_split node empty hlong', ← hlen] at h
    rw [nodePairs_split node empty hlong, nodePairs_split node empty hlong', ← hlen] at hinj
    have hpair := hinj _ mem_cons_self _ mem_cons_self h
    simp only [Prod.mk.injEq] at hpair
    have hleft := ihl (by simp [hlen]) (fun p hp q hq => hinj p (by simp [hp]) q (by simp [hq]))
      hpair.1
    have hright := ihr (by simp [hlen]) (fun p hp q hq => hinj p (by simp [hp]) q (by simp [hq]))
      hpair.2
    rw [← take_append_drop (splitPoint l.length) l, hleft, hright, take_append_drop]

/-! ## Nodes -/

def segment (l : List H) (start stop : Nat) : List H := (l.drop start).take (stop - start)

variable {start stop : Nat}

lemma segment_length (h : stop ≤ l.length) : (segment l start stop).length = stop - start := by
  simp only [segment, length_take, length_drop]
  omega

lemma segment_take {k : Nat} (h : k ≤ stop - start) :
    (segment l start stop).take k = segment l start (start + k) := by
  simp only [segment, take_take]
  congr 1
  omega

lemma segment_drop {k : Nat} : (segment l start stop).drop k = segment l (start + k) stop := by
  simp only [segment, drop_take, drop_drop]
  congr 1
  omega

lemma segment_append {m : List H} (h : stop ≤ l.length) :
    segment (l ++ m) start stop = segment l start stop := by
  by_cases hle : start ≤ stop
  · have hdrop : (l ++ m).drop start = l.drop start ++ m := by
      rw [drop_append_of_le_length (by omega)]
    rw [segment, hdrop, take_append_of_le_length (by rw [length_drop]; omega), segment]
  · have hz : stop - start = 0 := by omega
    simp [segment, hz]

variable {i : Nat}

lemma segment_singleton {h : H} (hi : l[i]? = some h) : segment l i (i + 1) = [h] := by
  obtain ⟨hlt, rfl⟩ := List.getElem?_eq_some_iff.mp hi
  rw [segment, Nat.add_sub_cancel_left, List.drop_eq_getElem_cons hlt]
  rfl

def NodeID.coverage (id : NodeID) : Nat × Nat :=
  (id.index * 2 ^ id.level, (id.index + 1) * 2 ^ id.level)

def NodeID.Within (n : Nat) (id : NodeID) : Prop := id.coverage.2 ≤ n

lemma NodeID.coverage_lt (id : NodeID) : id.coverage.1 < id.coverage.2 :=
  Nat.mul_lt_mul_of_pos_right (Nat.lt_succ_self _) (Nat.two_pow_pos _)

variable {id : NodeID}

lemma NodeID.Within.mono {m : Nat} (h : id.Within m) (hmn : m ≤ n) : id.Within n :=
  Nat.le_trans h hmn

def treeNode (l : List H) (id : NodeID) : H :=
  mth node empty (segment l id.coverage.1 id.coverage.2)

variable {node empty}

lemma treeNode_append (h : id.Within l.length) (m : List H) :
    treeNode node empty (l ++ m) id = treeNode node empty l id := by
  rw [treeNode, segment_append h, treeNode]

lemma treeNode_take (hn : n ≤ l.length) (h : id.Within n) :
    treeNode node empty (l.take n) id = treeNode node empty l id := by
  have hwithin : id.Within (l.take n).length := by rwa [length_take, Nat.min_eq_left hn]
  rw [← treeNode_append hwithin (l.drop n), take_append_drop]

lemma treeNode_leaf {h : H} (hi : l[i]? = some h) : treeNode node empty l ⟨0, i⟩ = h := by
  have hcov : (⟨0, i⟩ : NodeID).coverage = (i, i + 1) := by simp [NodeID.coverage]
  rw [treeNode, hcov, segment_singleton hi]
  rfl

lemma NodeID.within_leaf : (⟨0, i⟩ : NodeID).Within n ↔ i < n := by
  simp [NodeID.Within, NodeID.coverage, Nat.succ_le_iff]

end

/-! ## What the libraries do -/

def RangeImpl.Reports {H : Type} (R : RangeImpl H) (node : H → H → H) (empty : H)
    (Holds : R.Rng → List H → Prop) : Prop :=
  ∀ {r r' : R.Rng} {l : List H} {h : H} {visits : List (NodeID × H)}, Holds r l →
    R.append r h = .ok (r', visits) →
    ∀ v ∈ visits, v.1.Within (l.length + 1) ∧ v.2 = treeNode node empty (l ++ [h]) v.1

lemma leafList_reports {H : Type} (node : H → H → H) (empty : H) :
    (leafList node empty).Reports node empty (fun r l => r = l) := by
  intro r r' l h visits hrl happ v hv
  subst hrl
  cases happ
  rw [mem_singleton.mp hv]
  refine ⟨NodeID.within_leaf.mpr (Nat.lt_succ_self _), ?_⟩
  exact (treeNode_leaf getElem?_concat_length).symm

structure ProofImpl (H : Type) where
  Nodes : Type
  ids : Nodes → List NodeID
  inclusion : Nat → Nat → Except Err Nodes
  consistency : Nat → Nat → Except Err Nodes
  rehash : Nodes → List H → Except Err (List H)
  verifyInclusion : Nat → Nat → H → List H → H → Except Err Unit
  verifyConsistency : Nat → Nat → List H → H → H → Except Err Unit

structure ProofImpl.Lawful {H : Type} (P : ProofImpl H) (node : H → H → H) (empty : H) : Prop where
  inclusion_ok {i n : Nat} (hi : i < n) : ∃ nodes, P.inclusion i n = .ok nodes ∧
    (∀ id ∈ P.ids nodes, id.Within n) ∧
    ∀ (l : List H) (h : H), l.length = n → l[i]? = some h → ∃ proof,
      P.rehash nodes ((P.ids nodes).map (treeNode node empty l)) = .ok proof ∧
      P.verifyInclusion i n h proof (mth node empty l) = .ok ()
  inclusion_out {i n : Nat} (hi : n ≤ i) : ∃ e, P.inclusion i n = .error e
  consistency_ok {m n : Nat} (hm : 0 < m) (hmn : m < n) : ∃ nodes, P.consistency m n = .ok nodes ∧
    (∀ id ∈ P.ids nodes, id.Within n) ∧
    ∀ l : List H, l.length = n → ∃ proof,
      P.rehash nodes ((P.ids nodes).map (treeNode node empty l)) = .ok proof ∧
      P.verifyConsistency m n proof (mth node empty (l.take m)) (mth node empty l) = .ok ()
  consistency_same (n : Nat) (root : H) : P.verifyConsistency n n [] root root = .ok ()
  consistency_empty (n : Nat) (root1 root2 : H) (hn : 0 < n) :
    P.verifyConsistency 0 n [] root1 root2 = .ok ()

def wholeTree {H : Type} [DecidableEq H] (node : H → H → H) (empty : H) : ProofImpl H where
  Nodes := Nat
  ids n := (List.range n).map (⟨0, ·⟩)
  inclusion i n := if i < n then .ok n else .error (.errorf "index out of bounds" [])
  consistency m n := if m ≤ n then .ok n else .error (.errorf "size out of bounds" [])
  rehash _ hashes := .ok hashes
  verifyInclusion i n h proof root :=
    if proof.length = n ∧ proof[i]? = some h ∧ mth node empty proof = root then .ok ()
    else .error (.errorf "proof does not match" [])
  verifyConsistency m n proof root1 root2 :=
    if m = 0 ∨ (m = n ∧ root1 = root2) ∨
        (mth node empty (proof.take m) = root1 ∧ mth node empty proof = root2) then .ok ()
    else .error (.errorf "proof does not match" [])

lemma map_treeNode_range {H : Type} (node : H → H → H) (empty : H) (l : List H) :
    ((List.range l.length).map (⟨0, ·⟩)).map (treeNode node empty l) = l := by
  apply ext_getElem
  · simp
  · intro i _ hi
    simp only [getElem_map, getElem_range]
    exact treeNode_leaf (getElem?_eq_getElem hi)

lemma wholeTree_lawful {H : Type} [DecidableEq H] (node : H → H → H) (empty : H) :
    (wholeTree node empty).Lawful node empty where
  inclusion_ok {i n} hi := by
    refine ⟨n, if_pos hi, ?_, ?_⟩
    · intro id hid
      obtain ⟨j, hj, rfl⟩ := mem_map.mp hid
      exact NodeID.within_leaf.mpr (mem_range.mp hj)
    · rintro l h rfl hl
      exact ⟨l, congrArg Except.ok (map_treeNode_range node empty l), if_pos ⟨rfl, hl, rfl⟩⟩
  inclusion_out {i n} hi := ⟨_, if_neg (Nat.not_lt.mpr hi)⟩
  consistency_ok {m n} hm hmn := by
    refine ⟨n, if_pos (Nat.le_of_lt hmn), ?_, ?_⟩
    · intro id hid
      obtain ⟨j, hj, rfl⟩ := mem_map.mp hid
      exact NodeID.within_leaf.mpr (mem_range.mp hj)
    · rintro l rfl
      refine ⟨l, congrArg Except.ok (map_treeNode_range node empty l), ?_⟩
      exact if_pos (.inr (.inr ⟨rfl, rfl⟩))
  consistency_same n root := if_pos (.inr (.inl ⟨rfl, rfl⟩))
  consistency_empty n root1 root2 _ := by simp [wholeTree]

end Lib
