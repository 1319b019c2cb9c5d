import Stele.Lib.AuditPaths

/-!
# Climbing an RFC 6962 tree by the bits of an index

A verifier that knows an index and a size walks up level by level. On a level whose last node is
`last`, the sibling of an odd node `i` is on the left; an even node has it on the right, or has none
when it is the last one and passes to the level above as it is.
-/

namespace Lib

open List

inductive Side
  | left
  | right
  deriving DecidableEq

def sides (i last : Nat) : List Side :=
  if last = 0 then []
  else if i % 2 = 1 then .left :: sides (i / 2) (last / 2)
  else if i = last then sides (i / 2) (last / 2)
  else .right :: sides (i / 2) (last / 2)
termination_by last

def sidesAbove (i last : Nat) : List Side :=
  if i % 2 = 1 then sidesAbove (i / 2) (last / 2) else sides i last
termination_by i

lemma sides_zero (i : Nat) : sides i 0 = [] := by rw [sides, if_pos rfl]

section
variable {i last : Nat}

lemma sides_odd (h0 : last ≠ 0) (hodd : i % 2 = 1) :
    sides i last = .left :: sides (i / 2) (last / 2) := by
  rw [sides, if_neg h0, if_pos hodd]

lemma sides_even (hodd : i % 2 = 0) (hne : i < last) :
    sides i last = .right :: sides (i / 2) (last / 2) := by
  rw [sides, if_neg (by omega), if_neg (by omega), if_neg (by omega)]

lemma sides_last (hodd : i % 2 = 0) : sides i i = sides (i / 2) (i / 2) := by
  by_cases h0 : i = 0
  · rw [h0]
  · rw [sides, if_neg h0, if_neg (by omega), if_pos rfl]

lemma sidesAbove_odd (hodd : i % 2 = 1) : sidesAbove i last = sidesAbove (i / 2) (last / 2) := by
  rw [sidesAbove, if_pos hodd]

lemma sidesAbove_even (hodd : i % 2 = 0) : sidesAbove i last = sides i last := by
  rw [sidesAbove, if_neg (by omega)]

/-- **The way up through a tree** is the way up through the half where it starts, and one step. The
induction is on the level of the split, one bit of the index at a time. -/
theorem sides_split {k : Nat} (hi : i ≤ last) (hlo : 2 ^ k ≤ last) (hhi : last < 2 ^ (k + 1)) :
    sides i last = if i < 2 ^ k then sides i (2 ^ k - 1) ++ [.right]
      else sides (i - 2 ^ k) (last - 2 ^ k) ++ [.left] := by
  induction k generalizing i last with
  | zero =>
    obtain rfl : last = 1 := by omega
    obtain rfl | rfl : i = 0 ∨ i = 1 := by omega
    · rw [sides_even rfl (by decide)]
      simp [sides_zero]
    · rw [sides_odd (by decide) rfl]
      simp [sides_zero]
  | succ k ih =>
    have hpow : 2 ^ (k + 1) = 2 * 2 ^ k := by rw [Nat.pow_succ, Nat.mul_comm]
    have hpow' : 2 ^ (k + 1 + 1) = 2 * (2 * 2 ^ k) := by rw [Nat.pow_succ, hpow, Nat.mul_comm]
    have hpos := Nat.two_pow_pos k
    have hstep := @ih (i / 2) (last / 2) (by omega) (by omega) (by omega)
    rw [hpow]
    generalize 2 ^ k = p at *
    have hleft : (2 * p - 1) / 2 = p - 1 := by omega
    have hhalf : (i - 2 * p) / 2 = i / 2 - p ∧ (last - 2 * p) / 2 = last / 2 - p := by omega
    by_cases hlt : i < 2 * p
    · rw [if_pos (show i / 2 < p by omega)] at hstep
      rw [if_pos hlt]
      rcases Nat.mod_two_eq_zero_or_one i with heven | hodd
      · rw [sides_even heven (by omega), hstep, sides_even (i := i) heven (by omega), hleft,
          cons_append]
      · rw [sides_odd (by omega) hodd, hstep, sides_odd (i := i) (by omega) hodd, hleft,
          cons_append]
    · rw [if_neg (show ¬ i / 2 < p by omega), ← hhalf.1, ← hhalf.2] at hstep
      rw [if_neg hlt]
      rcases Nat.mod_two_eq_zero_or_one i with heven | hodd
      · by_cases hlast : i = last
        · subst hlast
          rw [sides_last heven, hstep, ← sides_last (by omega)]
        · rw [sides_even heven (by omega), hstep, sides_even (i := i - 2 * p) (by omega) (by omega),
            cons_append]
      · rw [sides_odd (by omega) hodd, hstep, sides_odd (i := i - 2 * p) (by omega) (by omega),
          cons_append]

lemma sidesAbove_split {k : Nat} (hi : i < last) (hlo : 2 ^ k ≤ last) (hhi : last < 2 ^ (k + 1)) :
    sidesAbove i last = if i < 2 ^ k then sidesAbove i (2 ^ k - 1) ++ [.right]
      else sidesAbove (i - 2 ^ k) (last - 2 ^ k) ++ [.left] := by
  induction k generalizing i last with
  | zero =>
    obtain ⟨rfl, rfl⟩ : i = 0 ∧ last = 1 := by omega
    rw [sidesAbove_even rfl, sides_even rfl (by decide)]
    simp [sidesAbove_even, sides_zero]
  | succ k ih =>
    have hpow : 2 ^ (k + 1) = 2 * 2 ^ k := by rw [Nat.pow_succ, Nat.mul_comm]
    rcases Nat.mod_two_eq_zero_or_one i with heven | hodd
    · rw [sidesAbove_even heven, sides_split (Nat.le_of_lt hi) hlo hhi, sidesAbove_even heven,
        sidesAbove_even (by omega)]
    · have hpow' : 2 ^ (k + 1 + 1) = 2 * (2 * 2 ^ k) := by rw [Nat.pow_succ, hpow, Nat.mul_comm]
      have hpos := Nat.two_pow_pos k
      have hstep := @ih (i / 2) (last / 2) (by omega) (by omega) (by omega)
      rw [hpow]
      generalize 2 ^ k = p at *
      have hleft : (2 * p - 1) / 2 = p - 1 := by omega
      have hhalf : (i - 2 * p) / 2 = i / 2 - p ∧ (last - 2 * p) / 2 = last / 2 - p := by omega
      rw [sidesAbove_odd hodd, hstep]
      by_cases hlt : i < 2 * p
      · rw [if_pos hlt, if_pos (by omega), sidesAbove_odd hodd, hleft]
      · rw [if_neg hlt, if_neg (by omega), sidesAbove_odd (i := i - 2 * p) (by omega), hhalf.1,
          hhalf.2]

lemma sidesAbove_complete (k : Nat) : sidesAbove (2 ^ k - 1) (2 ^ k - 1) = [] := by
  induction k with
  | zero =>
    show sidesAbove 0 0 = []
    rw [sidesAbove_even rfl, sides_zero]
  | succ k ih =>
    have hpos := Nat.two_pow_pos k
    have hhalf : (2 ^ (k + 1) - 1) / 2 = 2 ^ k - 1 := by
      rw [Nat.pow_succ]
      omega
    rw [sidesAbove_odd (by rw [Nat.pow_succ]; omega), hhalf, ih]

end

section
variable {n i : Nat}

lemma splitPoint_bounds (hn : 2 ≤ n) :
    splitPoint n ≤ n - 1 ∧ n - 1 < 2 ^ ((n - 1).log2 + 1) :=
  ⟨Nat.log2_self_le (by omega), Nat.lt_log2_self⟩

lemma sides_splitPoint (hn : 2 ≤ n) (hi : i < n) :
    sides i (n - 1) = if i < splitPoint n then sides i (splitPoint n - 1) ++ [.right]
      else sides (i - splitPoint n) (n - splitPoint n - 1) ++ [.left] := by
  rw [Nat.sub_right_comm]
  exact sides_split (by omega) (splitPoint_bounds hn).1 (splitPoint_bounds hn).2

lemma sidesAbove_splitPoint {m : Nat} (hm : 0 < m) (hmn : m < n) :
    sidesAbove (m - 1) (n - 1) =
      if m ≤ splitPoint n then sidesAbove (m - 1) (splitPoint n - 1) ++ [.right]
      else sidesAbove (m - splitPoint n - 1) (n - splitPoint n - 1) ++ [.left] := by
  have hsplit := sidesAbove_split (i := m - 1) (by omega) (splitPoint_bounds (n := n) (by omega)).1
    (splitPoint_bounds (by omega)).2
  have hiff : m ≤ splitPoint n ↔ m - 1 < splitPoint n := by omega
  simp only [Nat.sub_right_comm _ (splitPoint n), hiff]
  exact hsplit

end

/-! ## The hashes along the way -/

section
variable {H : Type} (node : H → H → H) (empty : H)

def Side.pair (h x : H) : Side → H × H
  | .left => (x, h)
  | .right => (h, x)

def rise : H → List (Side × H) → H
  | h, [] => h
  | h, s :: steps => rise (node (s.1.pair h s.2).1 (s.1.pair h s.2).2) steps

def risePairs : H → List (Side × H) → List (H × H)
  | _, [] => []
  | h, s :: steps => s.1.pair h s.2 :: risePairs (node (s.1.pair h s.2).1 (s.1.pair h s.2).2) steps

/-- The hash above a hash and its left siblings: the tree that ends there has no others. -/
def riseOld (h : H) (steps : List (Side × H)) : H :=
  rise node h (steps.filter (·.1 = .left))

variable {node}

lemma rise_append (h : H) (steps steps' : List (Side × H)) :
    rise node h (steps ++ steps') = rise node (rise node h steps) steps' := by
  induction steps generalizing h with
  | nil => rfl
  | cons s steps ih => exact ih _

lemma risePairs_append (h : H) (steps steps' : List (Side × H)) :
    risePairs node h (steps ++ steps') =
      risePairs node h steps ++ risePairs node (rise node h steps) steps' := by
  induction steps generalizing h with
  | nil => rfl
  | cons s steps ih => exact congrArg _ (ih _)

@[simp] lemma riseOld_left (h x : H) (steps : List (Side × H)) :
    riseOld node h (steps ++ [(.left, x)]) = node x (riseOld node h steps) := by
  simp [riseOld, rise_append, rise, Side.pair]

@[simp] lemma riseOld_right (h x : H) (steps : List (Side × H)) :
    riseOld node h (steps ++ [(.right, x)]) = riseOld node h steps := by
  simp [riseOld]

lemma zip_concat {ss : List Side} {s : Side} {xs : List H}
    (hlen : xs.length = (ss ++ [s]).length) :
    ∃ xs' x, xs = xs' ++ [x] ∧ xs'.length = ss.length ∧
      (ss ++ [s]).zip xs = ss.zip xs' ++ [(s, x)] := by
  rcases eq_nil_or_concat xs with rfl | ⟨xs', x, rfl⟩
  · simp at hlen
  · rw [concat_eq_append] at hlen ⊢
    rw [length_append, length_append, length_singleton, length_singleton,
      Nat.add_right_cancel_iff] at hlen
    exact ⟨xs', x, rfl, hlen, zip_append hlen.symm⟩

def Apart (node : H → H → H) (empty : H) (h : H) (steps : List (Side × H)) (l : List H) : Prop :=
  ∀ p ∈ risePairs node h steps, ∀ q ∈ nodePairs node empty l, node p.1 p.2 = node q.1 q.2 → p = q

variable {empty} {l : List H}

lemma Apart.top {h x : H} {steps : List (Side × H)} {s : Side} (hlong : 2 ≤ l.length)
    (hapart : Apart node empty h (steps ++ [(s, x)]) l)
    (hroot : rise node h (steps ++ [(s, x)]) = mth node empty l) :
    s.pair (rise node h steps) x = (mth node empty (l.take (splitPoint l.length)),
      mth node empty (l.drop (splitPoint l.length))) := by
  rw [rise_append, mth_split node empty hlong] at hroot
  refine hapart _ ?_ _ ?_ hroot
  · rw [risePairs_append]
    exact mem_append_right _ mem_cons_self
  · rw [nodePairs_split node empty hlong]
    exact mem_cons_self

lemma Apart.half {h x : H} {steps : List (Side × H)} {s : Side} {l l' : List H}
    (hapart : Apart node empty h (steps ++ [(s, x)]) l)
    (hsub : nodePairs node empty l' ⊆ nodePairs node empty l) : Apart node empty h steps l' := by
  intro p hp q hq
  refine hapart p ?_ q (hsub hq)
  rw [risePairs_append]
  exact mem_append_left _ hp

lemma nodePairs_half (hlong : 2 ≤ l.length) :
    nodePairs node empty (l.take (splitPoint l.length)) ⊆ nodePairs node empty l ∧
      nodePairs node empty (l.drop (splitPoint l.length)) ⊆ nodePairs node empty l := by
  rw [nodePairs_split node empty hlong]
  exact ⟨fun p hp => mem_cons_of_mem _ (mem_append_left _ hp),
    fun p hp => mem_cons_of_mem _ (mem_append_right _ hp)⟩

lemma take_length_half (hlong : 2 ≤ l.length) :
    (l.take (splitPoint l.length)).length = splitPoint l.length := by
  rw [length_take, Nat.min_eq_left (Nat.le_of_lt (splitPoint_lt hlong))]

/-! ### Audit paths -/

variable (node empty) in
/-- **Along an audit path the way ends at the root.** -/
theorem rise_auditPath {i : Nat} {h : H} (hi : l[i]? = some h) :
    (auditPath node empty i l).length = (sides i (l.length - 1)).length ∧
      rise node h ((sides i (l.length - 1)).zip (auditPath node empty i l)) = mth node empty l := by
  induction l using split_induction generalizing i with
  | nil => cases hi
  | leaf =>
    obtain rfl : i = 0 := by
      have := (List.getElem?_eq_some_iff.mp hi).1
      simpa using this
    cases hi
    rw [length_singleton, sides_zero]
    exact ⟨rfl, rfl⟩
  | split l hlong ihl ihr =>
    have hlt := splitPoint_lt hlong
    rw [auditPath_split node empty hlong, mth_split node empty hlong,
      sides_splitPoint hlong (List.getElem?_eq_some_iff.mp hi).1]
    by_cases hik : i < splitPoint l.length
    · obtain ⟨hlen, hroot⟩ := ihl (i := i) (by rw [List.getElem?_take_of_lt hik, hi])
      rw [length_take, Nat.min_eq_left (Nat.le_of_lt hlt)] at hlen hroot
      rw [if_pos hik, if_pos hik, zip_append hlen.symm, rise_append, hroot]
      exact ⟨by simp [hlen], rfl⟩
    · obtain ⟨hlen, hroot⟩ := ihr (i := i - splitPoint l.length) (by
        rw [getElem?_drop, Nat.add_sub_cancel' (Nat.not_lt.mp hik), hi])
      rw [length_drop] at hlen hroot
      rw [if_neg hik, if_neg hik, zip_append hlen.symm, rise_append, hroot]
      exact ⟨by simp [hlen], rfl⟩

/-- **A way that ends at the root starts at leaf `i` and is its audit path.** -/
theorem auditPath_of_rise {i : Nat} (hi : i < l.length) {h : H} {xs : List H}
    (hlen : xs.length = (sides i (l.length - 1)).length)
    (hapart : Apart node empty h ((sides i (l.length - 1)).zip xs) l)
    (hroot : rise node h ((sides i (l.length - 1)).zip xs) = mth node empty l) :
    l[i]? = some h ∧ xs = auditPath node empty i l := by
  induction l using split_induction generalizing i xs with
  | nil => cases hi
  | leaf =>
    obtain rfl : i = 0 := by simpa using hi
    rw [length_singleton, sides_zero] at hlen hroot
    obtain rfl := length_eq_zero_iff.mp hlen
    exact ⟨congrArg some hroot.symm, rfl⟩
  | split l hlong ihl ihr =>
    have hlt := splitPoint_lt hlong
    rw [auditPath_split node empty hlong]
    rw [sides_splitPoint hlong hi] at hlen hapart hroot
    by_cases hik : i < splitPoint l.length
    · rw [if_pos hik] at hlen hapart hroot
      obtain ⟨xs, x, rfl, hlen, hzip⟩ := zip_concat hlen
      rw [hzip] at hapart hroot
      obtain ⟨hleft, hright⟩ := Prod.mk.inj (hapart.top hlong hroot)
      have hhalf := take_length_half hlong
      obtain ⟨hleaf, hpath⟩ := @ihl i (by rwa [hhalf]) xs (by rwa [hhalf])
        (by rw [hhalf]; exact hapart.half (nodePairs_half hlong).1) (by rwa [hhalf])
      rw [if_pos hik, hpath, ← hright]
      exact ⟨by rw [← hleaf, List.getElem?_take_of_lt hik], rfl⟩
    · rw [if_neg hik] at hlen hapart hroot
      obtain ⟨xs, x, rfl, hlen, hzip⟩ := zip_concat hlen
      rw [hzip] at hapart hroot
      obtain ⟨hleft, hright⟩ := Prod.mk.inj (hapart.top hlong hroot)
      obtain ⟨hleaf, hpath⟩ := @ihr (i - splitPoint l.length)
        (by rw [length_drop]; omega) xs (by rwa [length_drop])
        (by rw [length_drop]; exact hapart.half (nodePairs_half hlong).2)
        (by rwa [length_drop])
      rw [if_neg hik, hpath, ← hleft]
      rw [getElem?_drop, Nat.add_sub_cancel' (Nat.not_lt.mp hik)] at hleaf
      exact ⟨hleaf, rfl⟩

/-! ### Consistency proofs -/

/-- The first leaves of a tree within its left half, or up to the right half. -/
lemma old_half {m n : Nat} (hmk : m ≤ splitPoint n) :
    m < splitPoint n ∨ m = splitPoint n ∧ m.isPowerOfTwo :=
  (Nat.lt_or_eq_of_le hmk).imp_right fun heq => ⟨heq, _, heq⟩

variable (node empty) in
/-- With the root of a complete old tree in front, a proof is the one for a verifier that does not
know it. -/
lemma subProof_false {m : Nat} (hm : 0 < m) (hml : m < l.length ∨ m = l.length ∧ m.isPowerOfTwo) :
    (m.isPowerOfTwo → subProof node empty m false l =
      mth node empty (l.take m) :: subProof node empty m true l) ∧
    (¬ m.isPowerOfTwo → subProof node empty m false l = subProof node empty m true l) := by
  induction l using split_induction with
  | nil => simp at hml; omega
  | leaf =>
    rcases hml with hlt | ⟨rfl, hpow⟩
    · simp at hlt
      omega
    · exact ⟨fun _ => rfl, fun hnot => absurd hpow hnot⟩
  | split l hlong ihl =>
    rcases hml with hmlt | ⟨rfl, hpow⟩
    · rw [subProof_split node empty hm hmlt, subProof_split node empty hm hmlt]
      by_cases hmk : m ≤ splitPoint l.length
      · obtain ⟨hpow, hnot⟩ := ihl (by
          rw [take_length_half hlong]
          exact old_half hmk)
        rw [take_take, Nat.min_eq_left hmk] at hpow
        rw [if_pos hmk, if_pos hmk]
        exact ⟨fun h => by rw [hpow h, cons_append], fun h => by rw [hnot h]⟩
      · -- between two powers of two there is none
        have hnot : ¬ m.isPowerOfTwo := by
          rintro ⟨k, rfl⟩
          have hhi := (splitPoint_bounds hlong).2
          have h1 := (Nat.pow_lt_pow_iff_right Nat.one_lt_two).mp (Nat.not_le.mp hmk)
          have h2 := (Nat.pow_lt_pow_iff_right Nat.one_lt_two).mp
            (show 2 ^ k < 2 ^ ((l.length - 1).log2 + 1) by omega)
          omega
        rw [if_neg hmk, if_neg hmk]
        exact ⟨fun h => absurd h hnot, fun _ => rfl⟩
    · refine ⟨fun _ => ?_, fun hnot => absurd hpow hnot⟩
      rw [take_length, subProof_all node empty _ (ne_nil_of_length_pos hm),
        subProof_all node empty _ (ne_nil_of_length_pos hm)]
      rfl

variable (node empty) in
/-- **Along a consistency proof both ways end at the roots.** -/
theorem rise_subProof {m : Nat} (hm : 0 < m) (hml : m < l.length ∨ m = l.length ∧ m.isPowerOfTwo) :
    ∃ x xs, subProof node empty m false l = x :: xs ∧
      xs.length = (sidesAbove (m - 1) (l.length - 1)).length ∧
      riseOld node x ((sidesAbove (m - 1) (l.length - 1)).zip xs) = mth node empty (l.take m) ∧
      rise node x ((sidesAbove (m - 1) (l.length - 1)).zip xs) = mth node empty l := by
  induction l using split_induction generalizing m with
  | nil => simp at hml; omega
  | leaf y =>
    obtain rfl : m = 1 := by simp at hml; omega
    rw [show sidesAbove (1 - 1) ([y].length - 1) = [] from sidesAbove_complete 0]
    exact ⟨y, [], rfl, rfl, rfl, rfl⟩
  | split l hlong ihl ihr =>
    rcases hml with hmlt | ⟨rfl, k, hk⟩
    · rw [subProof_split node empty hm hmlt, sidesAbove_splitPoint hm hmlt,
        mth_split node empty hlong]
      by_cases hmk : m ≤ splitPoint l.length
      · obtain ⟨x, xs, hproof, hlen, hold, hnew⟩ := ihl hm (by
          rw [take_length_half hlong]
          exact old_half hmk)
        rw [take_length_half hlong] at hlen hold hnew
        rw [take_take, Nat.min_eq_left hmk] at hold
        rw [if_pos hmk, if_pos hmk, hproof, cons_append]
        refine ⟨x, _, rfl, by simp [hlen], ?_⟩
        rw [zip_append hlen.symm, rise_append, hnew]
        exact ⟨(riseOld_right _ _ _).trans hold, rfl⟩
      · obtain ⟨x, xs, hproof, hlen, hold, hnew⟩ := @ihr (m - splitPoint l.length) (by omega) (by
          rw [length_drop]
          omega)
        rw [length_drop] at hlen hold hnew
        rw [if_neg hmk, if_neg hmk, hproof, cons_append]
        refine ⟨x, _, rfl, by simp [hlen], ?_⟩
        rw [zip_append hlen.symm, rise_append, hnew,
          mth_take_split node empty (Nat.not_le.mp hmk) (Nat.le_of_lt hmlt), ← hold]
        exact ⟨riseOld_left _ _ _, rfl⟩
    · refine ⟨mth node empty l, [], ?_, ?_, ?_, ?_⟩
      · exact subProof_all node empty false (ne_nil_of_length_pos hm)
      · rw [hk, sidesAbove_complete]
        rfl
      · rw [hk, sidesAbove_complete, ← hk, take_length]
        rfl
      · rw [hk, sidesAbove_complete]
        rfl

/-- **Two ways of which one ends at the root of a tree**: the other one ends at the root of its
beginning. -/
theorem root_of_rise {m : Nat} (hm : 0 < m)
    (hml : m < l.length ∨ m = l.length ∧ m.isPowerOfTwo) {x : H} {xs : List H}
    (hlen : xs.length = (sidesAbove (m - 1) (l.length - 1)).length)
    (hapart : Apart node empty x ((sidesAbove (m - 1) (l.length - 1)).zip xs) l)
    (hroot : rise node x ((sidesAbove (m - 1) (l.length - 1)).zip xs) = mth node empty l) :
    riseOld node x ((sidesAbove (m - 1) (l.length - 1)).zip xs) = mth node empty (l.take m) := by
  induction l using split_induction generalizing m xs with
  | nil => simp at hml; omega
  | leaf y =>
    obtain rfl : m = 1 := by simp at hml; omega
    rw [show sidesAbove (1 - 1) ([y].length - 1) = [] from sidesAbove_complete 0] at hroot ⊢
    exact hroot
  | split l hlong ihl ihr =>
    rcases hml with hmlt | ⟨rfl, k, hk⟩
    · rw [sidesAbove_splitPoint hm hmlt] at hlen hapart hroot ⊢
      by_cases hmk : m ≤ splitPoint l.length
      · rw [if_pos hmk] at hlen hapart hroot ⊢
        obtain ⟨xs, y, rfl, hlen, hzip⟩ := zip_concat hlen
        rw [hzip] at hapart hroot ⊢
        obtain ⟨hleft, -⟩ := Prod.mk.inj (hapart.top hlong hroot)
        have hold := @ihl m hm (by rw [take_length_half hlong]; exact old_half hmk) xs
          (by rwa [take_length_half hlong])
          (by rw [take_length_half hlong]; exact hapart.half (nodePairs_half hlong).1)
          (by rwa [take_length_half hlong])
        rw [take_length_half hlong, take_take, Nat.min_eq_left hmk] at hold
        rw [riseOld_right, hold]
      · rw [if_neg hmk] at hlen hapart hroot ⊢
        obtain ⟨xs, y, rfl, hlen, hzip⟩ := zip_concat hlen
        rw [hzip] at hapart hroot ⊢
        obtain ⟨hleft, hright⟩ := Prod.mk.inj (hapart.top hlong hroot)
        have hold := @ihr (m - splitPoint l.length) (by omega)
          (by rw [length_drop]; omega) xs (by rwa [length_drop])
          (by rw [length_drop]; exact hapart.half (nodePairs_half hlong).2)
          (by rwa [length_drop])
        rw [length_drop] at hold
        rw [riseOld_left, hold, show y = _ from hleft,
          mth_take_split node empty (Nat.not_le.mp hmk) (Nat.le_of_lt hmlt)]
    · rw [hk, sidesAbove_complete] at hroot ⊢
      rw [← hk, take_length]
      exact hroot

end

end Lib
