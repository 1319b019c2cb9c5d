import Stele.Lib.MerkleProofs

/-!
# RFC 6962 audit paths and consistency proofs
-/

namespace Lib

open List

section
variable {H : Type} (node : H → H → H) (empty : H)

lemma splitPoint_stable {m n : Nat} (hlo : splitPoint n < m) (hhi : m ≤ n) :
    splitPoint m = splitPoint n := by
  have hpos := splitPoint_pos n
  have hle : 2 ^ (n - 1).log2 ≤ m - 1 := by
    unfold splitPoint at hlo
    omega
  have hlt : n - 1 < 2 ^ ((n - 1).log2 + 1) := (Nat.log2_lt (by omega)).mp (Nat.lt_succ_self _)
  have hlog : (m - 1).log2 = (n - 1).log2 := by
    rw [Nat.log2_eq_iff (by omega)]
    omega
  rw [splitPoint, splitPoint, hlog]

variable {l : List H}

lemma mth_take_split {m : Nat} (hlo : splitPoint l.length < m) (hhi : m ≤ l.length) :
    mth node empty (l.take m) = node (mth node empty (l.take (splitPoint l.length)))
      (mth node empty ((l.drop (splitPoint l.length)).take (m - splitPoint l.length))) := by
  have hpos := splitPoint_pos l.length
  have hlen : (l.take m).length = m := by rw [length_take]; omega
  rw [mth_split node empty (by omega), hlen, splitPoint_stable hlo hhi, take_take,
    Nat.min_eq_left (Nat.le_of_lt hlo), drop_take]

/-! ## Audit paths -/

def auditPathFuel : Nat → Nat → List H → List H
  | _, _, [] => []
  | _, _, [_] => []
  | 0, _, _ => []
  | fuel + 1, i, l =>
    let k := splitPoint l.length
    if i < k then auditPathFuel fuel i (l.take k) ++ [mth node empty (l.drop k)]
    else auditPathFuel fuel (i - k) (l.drop k) ++ [mth node empty (l.take k)]

def auditPath (i : Nat) (l : List H) : List H := auditPathFuel node empty l.length i l

lemma auditPathFuel_eq {f g i : Nat} (hf : l.length ≤ f) (hg : l.length ≤ g) :
    auditPathFuel node empty f i l = auditPathFuel node empty g i l := by
  induction l using split_induction generalizing f g i with
  | nil => cases f <;> cases g <;> rfl
  | leaf => cases f <;> cases g <;> rfl
  | split l hlong ihl ihr =>
    obtain ⟨f, rfl⟩ := Nat.exists_eq_succ_of_ne_zero (show f ≠ 0 by omega)
    obtain ⟨g, rfl⟩ := Nat.exists_eq_succ_of_ne_zero (show g ≠ 0 by omega)
    obtain ⟨hlf, hrf⟩ := split_length_le hlong hf
    obtain ⟨hlg, hrg⟩ := split_length_le hlong hg
    match l, hlong with
    | a :: b :: l, _ =>
      simp only [auditPathFuel]
      rw [@ihl f g i hlf hlg, @ihr f g _ hrf hrg]

lemma auditPath_split {i : Nat} (h : 2 ≤ l.length) :
    auditPath node empty i l =
      if i < splitPoint l.length then
        auditPath node empty i (l.take (splitPoint l.length)) ++
          [mth node empty (l.drop (splitPoint l.length))]
      else
        auditPath node empty (i - splitPoint l.length) (l.drop (splitPoint l.length)) ++
          [mth node empty (l.take (splitPoint l.length))] := by
  match l, h with
  | a :: b :: l, h =>
    obtain ⟨hl, hr⟩ := split_length_le h (Nat.le_refl (l.length + 2))
    have hleft : auditPathFuel node empty (l.length + 1) i
        ((a :: b :: l).take (splitPoint (a :: b :: l).length)) =
          auditPath node empty i ((a :: b :: l).take (splitPoint (a :: b :: l).length)) :=
      auditPathFuel_eq node empty hl Nat.le.refl
    have hright (j : Nat) : auditPathFuel node empty (l.length + 1) j
        ((a :: b :: l).drop (splitPoint (a :: b :: l).length)) =
          auditPath node empty j ((a :: b :: l).drop (splitPoint (a :: b :: l).length)) :=
      auditPathFuel_eq node empty hr Nat.le.refl
    rw [← hleft, ← hright]
    rfl

def pathRoot (h : H) : Nat → Nat → List H → Option H
  | _, n, [] => if n = 1 then some h else none
  | i, n, x :: path =>
    let k := splitPoint n
    if n ≤ 1 then none
    else if i < k then (pathRoot h i k path).map (node · x)
    else (pathRoot h (i - k) (n - k) path).map (node x ·)

lemma pathRoot_auditPath {i : Nat} {h : H} (hi : l[i]? = some h) :
    pathRoot node h i l.length (auditPath node empty i l).reverse = some (mth node empty l) := by
  induction l using split_induction generalizing i with
  | nil => cases hi
  | leaf =>
    obtain rfl : i = 0 := by
      have := (List.getElem?_eq_some_iff.mp hi).1
      simpa using this
    cases hi
    rfl
  | split l hlong ihl ihr =>
    have hlt := splitPoint_lt hlong
    have hpos := splitPoint_pos l.length
    have hnle : ¬ l.length ≤ 1 := by omega
    rw [auditPath_split node empty hlong, mth_split node empty hlong]
    generalize hk : splitPoint l.length = k at *
    by_cases hik : i < k
    · have hleft := ihl (i := i) (by rw [getElem?_take_of_lt hik, hi])
      rw [length_take, Nat.min_eq_left (Nat.le_of_lt hlt)] at hleft
      rw [if_pos hik, reverse_append, reverse_singleton, singleton_append, pathRoot,
        hk, if_neg hnle, if_pos hik, hleft]
      rfl
    · have hright := ihr (i := i - k) (by
        rw [getElem?_drop, Nat.add_sub_cancel' (Nat.not_lt.mp hik), hi])
      rw [length_drop] at hright
      rw [if_neg hik, reverse_append, reverse_singleton, singleton_append, pathRoot,
        hk, if_neg hnle, if_neg hik, hright]
      rfl

/-! ## Consistency proofs -/

/-- `SUBPROOF(m, l, whole)`, with `fuel` levels: `whole` while the first `m` leaves are a tree whose
root the verifier knows. -/
def subProofFuel : Nat → Nat → Bool → List H → List H
  | 0, _, _, _ => []
  | fuel + 1, m, whole, l =>
    if m = l.length then if whole then [] else [mth node empty l]
    else
      let k := splitPoint l.length
      if m ≤ k then subProofFuel fuel m whole (l.take k) ++ [mth node empty (l.drop k)]
      else subProofFuel fuel (m - k) false (l.drop k) ++ [mth node empty (l.take k)]

def subProof (m : Nat) (whole : Bool) (l : List H) : List H :=
  subProofFuel node empty l.length m whole l

def consistencyPath (m : Nat) (l : List H) : List H :=
  if m = 0 then [] else subProof node empty m true l

lemma subProofFuel_eq {f g m : Nat} {whole : Bool} (hf : l.length ≤ f)
    (hg : l.length ≤ g) (hm : 0 < m) (hml : m ≤ l.length) :
    subProofFuel node empty f m whole l = subProofFuel node empty g m whole l := by
  induction l using split_induction generalizing f g m whole with
  | nil => simp at hml; omega
  | leaf =>
    obtain rfl : m = 1 := by simp at hml; omega
    obtain ⟨f, rfl⟩ := Nat.exists_eq_succ_of_ne_zero (show f ≠ 0 by simp at hf; omega)
    obtain ⟨g, rfl⟩ := Nat.exists_eq_succ_of_ne_zero (show g ≠ 0 by simp at hg; omega)
    simp [subProofFuel]
  | split l hlong ihl ihr =>
    have hlt := splitPoint_lt hlong
    have hpos := splitPoint_pos l.length
    obtain ⟨f, rfl⟩ := Nat.exists_eq_succ_of_ne_zero (show f ≠ 0 by omega)
    obtain ⟨g, rfl⟩ := Nat.exists_eq_succ_of_ne_zero (show g ≠ 0 by omega)
    simp only [subProofFuel]
    by_cases hall : m = l.length
    · rw [if_pos hall, if_pos hall]
    · rw [if_neg hall, if_neg hall]
      by_cases hmk : m ≤ splitPoint l.length
      · rw [if_pos hmk, if_pos hmk, @ihl f g m whole (by rw [length_take]; omega)
          (by rw [length_take]; omega) hm (by rw [length_take]; omega)]
      · rw [if_neg hmk, if_neg hmk, @ihr f g _ false (by rw [length_drop]; omega)
          (by rw [length_drop]; omega) (by omega) (by rw [length_drop]; omega)]

lemma subProof_all (whole : Bool) (h : l ≠ []) :
    subProof node empty l.length whole l = if whole then [] else [mth node empty l] := by
  obtain ⟨n, hn⟩ := Nat.exists_eq_succ_of_ne_zero (fun h0 => h (length_eq_zero_iff.mp h0))
  rw [subProof, hn, subProofFuel, if_pos hn.symm]

lemma subProof_split {m : Nat} {whole : Bool} (hm : 0 < m) (hml : m < l.length) :
    subProof node empty m whole l =
      if m ≤ splitPoint l.length then
        subProof node empty m whole (l.take (splitPoint l.length)) ++
          [mth node empty (l.drop (splitPoint l.length))]
      else
        subProof node empty (m - splitPoint l.length) false (l.drop (splitPoint l.length)) ++
          [mth node empty (l.take (splitPoint l.length))] := by
  have hlt := splitPoint_lt (n := l.length) (by omega)
  have hpos := splitPoint_pos l.length
  obtain ⟨n, hn⟩ := Nat.exists_eq_succ_of_ne_zero (show l.length ≠ 0 by omega)
  have hunfold : subProof node empty m whole l = subProofFuel node empty (n + 1) m whole l := by
    rw [subProof, hn]
  rw [hunfold, subProofFuel, if_neg (by omega)]
  by_cases hmk : m ≤ splitPoint l.length
  · rw [if_pos hmk, if_pos hmk]
    congr 1
    exact subProofFuel_eq node empty (by rw [length_take]; omega) Nat.le.refl hm
      (by rw [length_take]; omega)
  · rw [if_neg hmk, if_neg hmk]
    congr 1
    exact subProofFuel_eq node empty (by rw [length_drop]; omega) Nat.le.refl (by omega)
      (by rw [length_drop]; omega)

def pathRoots (old : H) : Bool → Nat → Nat → List H → Option (H × H)
  | whole, m, n, [] => if m = n ∧ whole = true then some (old, old) else none
  | whole, m, n, x :: path =>
    let k := splitPoint n
    if m = n then if whole = false ∧ path.isEmpty = true then some (x, x) else none
    else if m ≤ k then (pathRoots old whole m k path).map fun p => (p.1, node p.2 x)
    else (pathRoots old false (m - k) (n - k) path).map fun p => (node x p.1, node x p.2)

lemma pathRoots_subProof (whole : Bool) {old : H} {m : Nat} (hm : 0 < m)
    (hml : m ≤ l.length) (hold : whole = true → old = mth node empty (l.take m)) :
    pathRoots node old whole m l.length (subProof node empty m whole l).reverse =
      some (mth node empty (l.take m), mth node empty l) := by
  induction l using split_induction generalizing m whole with
  | nil => simp at hml; omega
  | leaf =>
    obtain rfl : m = 1 := by simp at hml; omega
    cases whole with
    | true =>
      rw [hold rfl]
      rfl
    | false => rfl
  | split l hlong ihl ihr =>
    have hlt := splitPoint_lt hlong
    have hpos := splitPoint_pos l.length
    by_cases hall : m = l.length
    · subst hall
      rw [subProof_all node empty whole (ne_nil_of_length_pos (by omega)), take_length]
      rw [take_length] at hold
      cases whole with
      | true =>
        rw [hold rfl]
        simp [pathRoots]
      | false => simp [pathRoots]
    · have hmlt : m < l.length := Nat.lt_of_le_of_ne hml hall
      rw [subProof_split node empty hm hmlt]
      by_cases hmk : m ≤ splitPoint l.length
      · have htake : (l.take (splitPoint l.length)).take m = l.take m := by
          rw [take_take, Nat.min_eq_left hmk]
        have hleft := ihl whole hm (by rw [length_take]; omega) (by rwa [htake])
        rw [length_take, Nat.min_eq_left (Nat.le_of_lt hlt), htake] at hleft
        rw [if_pos hmk, reverse_append, reverse_singleton, singleton_append,
          pathRoots, if_neg hall, if_pos hmk, hleft, mth_split node empty hlong]
        rfl
      · have hright := ihr false (m := m - splitPoint l.length) (by omega)
          (by rw [length_drop]; omega) (by simp)
        rw [length_drop] at hright
        rw [if_neg hmk, reverse_append, reverse_singleton, singleton_append,
          pathRoots, if_neg hall, if_neg hmk, hright, mth_split node empty hlong]
        rw [mth_take_split node empty (Nat.not_le.mp hmk) hml]
        rfl

end

/-! ## Proof libraries -/

/-- **The contract of a library that makes RFC 6962 proofs** from the hashes of complete nodes. -/
structure ProofImpl.Rfc6962 {H : Type} (P : ProofImpl H) (node : H → H → H) (empty : H) :
    Prop where
  inclusion {i n : Nat} (hi : i < n) : ∃ nodes, P.inclusion i n = .ok nodes ∧
    (∀ id ∈ P.ids nodes, id.Within n) ∧ ∀ l : List H, l.length = n →
      P.rehash nodes ((P.ids nodes).map (treeNode node empty l)) = .ok (auditPath node empty i l)
  inclusion_out {i n : Nat} (hi : n ≤ i) : ∃ e, P.inclusion i n = .error e
  consistency {m n : Nat} (hm : 0 < m) (hmn : m < n) : ∃ nodes, P.consistency m n = .ok nodes ∧
    (∀ id ∈ P.ids nodes, id.Within n) ∧ ∀ l : List H, l.length = n →
      P.rehash nodes ((P.ids nodes).map (treeNode node empty l)) =
        .ok (consistencyPath node empty m l)

def ProofImpl.InclusionSound {H : Type} (P : ProofImpl H) (node : H → H → H) (empty : H)
    (leaves : List H) : Prop :=
  ∀ i h proof, P.verifyInclusion i leaves.length h proof (mth node empty leaves) = .ok () →
    leaves[i]? = some h

def ProofImpl.ConsistencySound {H : Type} (P : ProofImpl H) (node : H → H → H) (empty : H)
    (leaves : List H) (proofs : List (List H)) : Prop :=
  ∀ proof ∈ proofs, ∀ m n root, 0 < m → m ≤ n → n ≤ leaves.length →
    P.verifyConsistency m n proof root (mth node empty (leaves.take n)) = .ok () →
      root = mth node empty (leaves.take m)

inductive Wanted
  | inclusion (i n : Nat)
  | consistency (m n : Nat)

def Wanted.size : Wanted → Nat
  | .inclusion _ n => n
  | .consistency _ n => n

def pathTree {H : Type} [DecidableEq H] (node : H → H → H) (empty : H) : ProofImpl H where
  Nodes := Wanted
  ids w := (List.range w.size).map (⟨0, ·⟩)
  inclusion i n := if i < n then .ok (.inclusion i n) else .error (.errorf "index out of bounds" [])
  consistency m n :=
    if m ≤ n then .ok (.consistency m n) else .error (.errorf "size out of bounds" [])
  rehash w leaves :=
    match w with
    | .inclusion i _ => .ok (auditPath node empty i leaves)
    | .consistency m _ => .ok (consistencyPath node empty m leaves)
  verifyInclusion i n h proof root :=
    if i < n ∧ pathRoot node h i n proof.reverse = some root then .ok ()
    else .error (.errorf "calculated root does not match" [])
  verifyConsistency m n proof root1 root2 :=
    if m = n then
      if proof.isEmpty = true ∧ root1 = root2 then .ok ()
      else .error (.errorf "size1=size2, but proof is not empty" [])
    else if m = 0 then
      if proof.isEmpty = true then .ok () else .error (.errorf "proof is not empty" [])
    else if m < n ∧ pathRoots node root1 true m n proof.reverse = some (root1, root2) then .ok ()
    else .error (.errorf "calculated root does not match" [])

section
variable {H : Type} [DecidableEq H] (node : H → H → H) (empty : H)

lemma pathTree_rfc6962 : (pathTree node empty).Rfc6962 node empty where
  inclusion {i n} hi := by
    refine ⟨.inclusion i n, if_pos hi, ?_, ?_⟩
    · intro id hid
      obtain ⟨j, hj, rfl⟩ := mem_map.mp hid
      exact NodeID.within_leaf.mpr (mem_range.mp hj)
    · rintro l rfl
      show Except.ok (auditPath node empty i _) = _
      rw [show (pathTree node empty).ids (.inclusion i l.length) =
        (List.range l.length).map (⟨0, ·⟩) from rfl, map_treeNode_range]
  inclusion_out {i n} hi := ⟨_, if_neg (Nat.not_lt.mpr hi)⟩
  consistency {m n} hm hmn := by
    refine ⟨.consistency m n, if_pos (Nat.le_of_lt hmn), ?_, ?_⟩
    · intro id hid
      obtain ⟨j, hj, rfl⟩ := mem_map.mp hid
      exact NodeID.within_leaf.mpr (mem_range.mp hj)
    · rintro l rfl
      show Except.ok (consistencyPath node empty m _) = _
      rw [show (pathTree node empty).ids (.consistency m l.length) =
        (List.range l.length).map (⟨0, ·⟩) from rfl, map_treeNode_range]

lemma pathTree_lawful : (pathTree node empty).Lawful node empty where
  inclusion_ok {i n} hi := by
    obtain ⟨nodes, hnodes, hids, hpath⟩ := (pathTree_rfc6962 node empty).inclusion hi
    refine ⟨nodes, hnodes, hids, ?_⟩
    rintro l h rfl hl
    exact ⟨_, hpath l rfl, if_pos ⟨hi, pathRoot_auditPath node empty hl⟩⟩
  inclusion_out {i n} hi := ⟨_, if_neg (Nat.not_lt.mpr hi)⟩
  consistency_ok {m n} hm hmn := by
    obtain ⟨nodes, hnodes, hids, hpath⟩ := (pathTree_rfc6962 node empty).consistency hm hmn
    refine ⟨nodes, hnodes, hids, ?_⟩
    rintro l rfl
    refine ⟨_, hpath l rfl, ?_⟩
    have hroots := pathRoots_subProof node empty true hm (Nat.le_of_lt hmn) (fun _ => rfl)
    show (if m = l.length then _ else _) = _
    rw [if_neg (Nat.ne_of_lt hmn), if_neg (Nat.ne_of_gt hm), consistencyPath,
      if_neg (Nat.ne_of_gt hm)]
    exact if_pos ⟨hmn, hroots⟩
  consistency_same n root := by simp [pathTree]
  consistency_empty n root1 root2 hn := by simp [pathTree, Nat.ne_of_lt hn]

end

end Lib
