import Stele.Crypto
import Mathlib.Data.List.Sort

/-!
# Threshold groups (`pkg/threshold/group.go`)

A `Group` is a t-of-N signing group. Its member list comes from JSON, so an element may be nil; the
functions that read a member panic on one.
-/

namespace Stele

open Lib List

structure Member where
  id : Bytes
  publicKey : Bytes
  quantumPublicKey : Bytes := []
  endpoint : Bytes := []
  description : Bytes := []
  deriving DecidableEq, Repr

structure Group where
  version : Nat
  origin : Bytes
  members : List (Option Member)
  threshold : Nat
  createdAt : Int
  deriving DecidableEq, Repr

namespace Group

def nilMember : Fault := .panic "invalid memory address or nil pointer dereference"

def validateMembers : List Bytes → List Bytes → List (Option Member) → Res Unit
  | _, _, [] => .ok ()
  | _, _, none :: _ => .error nilMember
  | seenID, seenPub, some m :: ms => do
    ensure (m.id ≠ []) (errorf "threshold: member with empty ID" [])
    ensure (m.id ∉ seenID) (errorf "threshold: duplicate member ID %q" [.bytes m.id])
    ensure (m.publicKey.length = edPublicKeySize)
      (errorf "threshold: member %q bad pubkey length %d" [.bytes m.id, .nat m.publicKey.length])
    ensure (hex m.publicKey ∉ seenPub)
      (errorf "threshold: duplicate member public key (id=%q)" [.bytes m.id])
    validateMembers (m.id :: seenID) (hex m.publicKey :: seenPub) ms

def validate : Option Group → Res Unit
  | none => .error (errorf "threshold: nil group" [])
  | some g => do
    ensure (g.version = 1) (errorf "threshold: unsupported group version %d" [.nat g.version])
    ensure (g.origin ≠ []) (errorf "threshold: group missing origin" [])
    ensure (g.members ≠ []) (errorf "threshold: group must have >= 1 member" [])
    ensure (g.threshold ≠ 0 ∧ g.threshold ≤ g.members.length)
      (errorf "threshold: invalid threshold %d for %d members"
        [.nat g.threshold, .nat g.members.length])
    validateMembers [] [] g.members

def bytesLe : Bytes → Bytes → Bool
  | [], _ => true
  | _ :: _, [] => false
  | a :: x, b :: y => if a = b then bytesLe x y else a < b

def encodeMember (m : Member) : Bytes := put m.id ++ put m.publicKey ++ put m.quantumPublicKey

def canonical (g : Group) : Res Bytes :=
  match g.members.mapM id with
  | none => .error nilMember
  | some ms =>
    let members := ms.insertionSort fun a b => bytesLe a.id b.id = true
    .ok <| be 4 g.version ++ put g.origin ++ be 4 g.threshold ++ be 8 (u64 g.createdAt) ++
      be 4 members.length ++ (members.map encodeMember).flatten

def digest (C : Crypto) (g : Group) : Res Bytes := do return C.sha256 (← g.canonical)

def memberByID (g : Group) (id : Bytes) : Res (Option Member) :=
  go g.members
where
  go : List (Option Member) → Res (Option Member)
    | [] => .ok none
    | none :: _ => .error nilMember
    | some m :: ms => if m.id = id then .ok (some m) else go ms

/-! ## Well-formed groups -/

structure WellFormed (g : Group) (ms : List Member) : Prop where
  members : g.members = ms.map some
  version : g.version = 1
  origin : g.origin ≠ []
  nonempty : ms ≠ []
  threshold_pos : g.threshold ≠ 0
  threshold_le : g.threshold ≤ ms.length
  id_ne : ∀ m ∈ ms, m.id ≠ []
  id_nodup : (ms.map Member.id).Nodup
  key_length : ∀ m ∈ ms, m.publicKey.length = edPublicKeySize
  key_nodup : (ms.map Member.publicKey).Nodup

/-- What the loop checks: `ms` are the members, with IDs and keys outside those seen before. -/
private structure Fresh (seenID seenPub : List Bytes) (ms : List Member) : Prop where
  id_ne : ∀ m ∈ ms, m.id ≠ []
  id_nodup : (ms.map Member.id).Nodup
  id_fresh : ∀ m ∈ ms, m.id ∉ seenID
  key_length : ∀ m ∈ ms, m.publicKey.length = edPublicKeySize
  key_nodup : (ms.map Member.publicKey).Nodup
  key_fresh : ∀ m ∈ ms, hex m.publicKey ∉ seenPub

private lemma distinct_cons {f : Member → Bytes} {key : Bytes → Bytes}
    (hkey : Function.Injective key) {seen : List Bytes} {m : Member} {ms : List Member} :
    (((m :: ms).map f).Nodup ∧ ∀ x ∈ m :: ms, key (f x) ∉ seen) ↔
      key (f m) ∉ seen ∧ (ms.map f).Nodup ∧ ∀ x ∈ ms, key (f x) ∉ key (f m) :: seen := by
  have hm : f m ∉ ms.map f ↔ ∀ x ∈ ms, key (f x) ≠ key (f m) := by simp [hkey.eq_iff]
  rw [map_cons, nodup_cons, forall_mem_cons, hm]
  simp only [mem_cons, not_or]
  constructor
  · rintro ⟨⟨hne, hnodup⟩, hseen, hfresh⟩
    exact ⟨hseen, hnodup, fun x hx => ⟨hne x hx, hfresh x hx⟩⟩
  · rintro ⟨hseen, hnodup, hfresh⟩
    exact ⟨⟨fun x hx => (hfresh x hx).1, hnodup⟩, hseen, fun x hx => (hfresh x hx).2⟩

private lemma fresh_cons {seenID seenPub : List Bytes} {m : Member} {ms : List Member} :
    Fresh seenID seenPub (m :: ms) ↔
      m.id ≠ [] ∧ m.id ∉ seenID ∧ m.publicKey.length = edPublicKeySize ∧
        hex m.publicKey ∉ seenPub ∧ Fresh (m.id :: seenID) (hex m.publicKey :: seenPub) ms := by
  have hid := @distinct_cons Member.id id Function.injective_id seenID m ms
  have hpub := @distinct_cons Member.publicKey hex (fun _ _ => hex_inj) seenPub m ms
  constructor
  · rintro ⟨h1, h2, h3, h4, h5, h6⟩
    obtain ⟨hi, hi1, hi2⟩ := hid.mp ⟨h2, h3⟩
    obtain ⟨hp, hp1, hp2⟩ := hpub.mp ⟨h5, h6⟩
    rw [forall_mem_cons] at h1 h4
    exact ⟨h1.1, hi, h4.1, hp, h1.2, hi1, hi2, h4.2, hp1, hp2⟩
  · rintro ⟨h1, hi, h4, hp, h⟩
    obtain ⟨h2, h3⟩ := hid.mpr ⟨hi, h.id_nodup, h.id_fresh⟩
    obtain ⟨h5, h6⟩ := hpub.mpr ⟨hp, h.key_nodup, h.key_fresh⟩
    exact ⟨forall_mem_cons.mpr ⟨h1, h.id_ne⟩, h2, h3,
      forall_mem_cons.mpr ⟨h4, h.key_length⟩, h5, h6⟩

private lemma validateMembers_ok {seenID seenPub : List Bytes} {l : List (Option Member)}
    {u : Unit} : validateMembers seenID seenPub l = .ok u ↔
      ∃ ms, l = ms.map some ∧ Fresh seenID seenPub ms := by
  induction l generalizing seenID seenPub with
  | nil =>
    simp only [validateMembers, true_iff]
    exact ⟨[], rfl, by constructor <;> simp⟩
  | cons o l ih =>
    cases o with
    | none =>
      simp only [validateMembers, reduceCtorEq, false_iff]
      rintro ⟨ms, hms, -⟩
      cases ms <;> simp at hms
    | some m =>
      simp only [validateMembers, bind_ok, ensure_ok, exists_const, ih]
      constructor
      · rintro ⟨h1, h2, h3, h4, ms, rfl, hf⟩
        exact ⟨m :: ms, rfl, fresh_cons.mpr ⟨h1, h2, h3, h4, hf⟩⟩
      · rintro ⟨ms, hms, hf⟩
        cases ms with
        | nil => simp at hms
        | cons m' ms =>
          simp only [map_cons, List.cons.injEq, Option.some.injEq] at hms
          obtain ⟨rfl, rfl⟩ := hms
          obtain ⟨h1, h2, h3, h4, hf⟩ := fresh_cons.mp hf
          exact ⟨h1, h2, h3, h4, ms, rfl, hf⟩

lemma validate_ok {g : Group} {u : Unit} :
    validate (some g) = .ok u ↔ ∃ ms, g.WellFormed ms := by
  simp only [validate, bind_ok, ensure_ok, exists_const, validateMembers_ok]
  constructor
  · rintro ⟨hv, ho, hne, ⟨ht0, htl⟩, ms, hms, hf⟩
    refine ⟨ms, hms, hv, ho, ?_, ht0, ?_, hf.id_ne, hf.id_nodup, hf.key_length, hf.key_nodup⟩
    · rintro rfl
      exact hne hms
    · rwa [hms, length_map] at htl
  · rintro ⟨ms, h⟩
    refine ⟨h.version, h.origin, ?_, ⟨h.threshold_pos, ?_⟩, ms, h.members, h.id_ne, h.id_nodup, ?_,
      h.key_length, h.key_nodup, ?_⟩
    · rw [h.members]
      simpa using h.nonempty
    · rw [h.members, length_map]
      exact h.threshold_le
    · simp
    · simp

namespace WellFormed

variable {g : Group} {ms : List Member} (h : g.WellFormed ms)
include h

lemma memberByID_eq {m : Member} (hm : m ∈ ms) : g.memberByID m.id = .ok (some m) := by
  have hnodup := h.id_nodup
  unfold memberByID
  rw [h.members]
  clear h
  induction ms with
  | nil => simp at hm
  | cons x ms ih =>
    simp only [map_cons, nodup_cons] at hnodup
    rw [map_cons, memberByID.go]
    rcases mem_cons.mp hm with rfl | hm
    · rw [if_pos rfl]
    · have hne : x.id ≠ m.id := fun he => hnodup.1 (he ▸ mem_map_of_mem hm)
      rw [if_neg hne, ih hm hnodup.2]

lemma memberByID_cases (id : Bytes) :
    (∃ m ∈ ms, m.id = id ∧ g.memberByID id = .ok (some m)) ∨
      (id ∉ ms.map Member.id ∧ g.memberByID id = .ok none) := by
  by_cases hid : id ∈ ms.map Member.id
  · obtain ⟨m, hm, rfl⟩ := mem_map.mp hid
    exact .inl ⟨m, hm, rfl, h.memberByID_eq hm⟩
  · refine .inr ⟨hid, ?_⟩
    unfold memberByID
    rw [h.members]
    clear h
    induction ms with
    | nil => rfl
    | cons x ms ih =>
      simp only [map_cons, mem_cons, not_or] at hid
      rw [map_cons, memberByID.go, if_neg (Ne.symm hid.1), ih hid.2]

end WellFormed

end Group

end Stele
