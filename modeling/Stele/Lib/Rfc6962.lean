import Stele.Lib.Fault

/-!
# RFC 6962 tree hashes and compact ranges
-/

namespace Lib

section
variable {H : Type} (node : H → H → H) (empty : H)

def splitPoint (n : Nat) : Nat := 2 ^ Nat.log2 (n - 1)

def mthFuel : Nat → List H → H
  | _, [] => empty
  | _, [h] => h
  | 0, _ => empty
  | fuel + 1, l =>
    node (mthFuel fuel (l.take (splitPoint l.length))) (mthFuel fuel (l.drop (splitPoint l.length)))

/-- The RFC 6962 tree hash of a list of leaf hashes. A list of length `n` needs fewer than `n`
levels. -/
def mth (l : List H) : H := mthFuel node empty l.length l

end

structure NodeID where
  level : Nat
  index : Nat
  deriving DecidableEq, Repr

structure RangeImpl (H : Type) where
  Rng : Type
  newEmptyRange : Rng
  stop : Rng → Nat
  append : Rng → H → Res (Rng × List (NodeID × H))
  getRootHash : Rng → Res H

/-- **The contract of a compact range.** `Holds r l`: `r` is the range of the leaves `l`. -/
structure RangeImpl.Lawful {H : Type} (R : RangeImpl H) (node : H → H → H) (empty : H)
    (Holds : R.Rng → List H → Prop) : Prop where
  holds_empty : Holds R.newEmptyRange []
  stop_eq {r : R.Rng} {l : List H} : Holds r l → R.stop r = l.length
  append_ok {r : R.Rng} {l : List H} (h : H) : Holds r l →
    ∃ r' visits, R.append r h = .ok (r', visits) ∧ Holds r' (l ++ [h])
  root_eq {r : R.Rng} {l : List H} : Holds r l → l ≠ [] → R.getRootHash r = .ok (mth node empty l)

def leafList {H : Type} (node : H → H → H) (empty : H) : RangeImpl H where
  Rng := List H
  newEmptyRange := []
  stop := List.length
  append l h := .ok (l ++ [h], [(⟨0, l.length⟩, h)])
  getRootHash l := .ok (mth node empty l)

lemma leafList_lawful {H : Type} (node : H → H → H) (empty : H) :
    (leafList node empty).Lawful node empty (fun r l => r = l) where
  holds_empty := rfl
  stop_eq h := by rw [h]; rfl
  append_ok h hl := ⟨_, _, rfl, by rw [hl]⟩
  root_eq hl _ := by rw [hl]; rfl

end Lib
