import Stele.Lib.Quorum
import Stele.Threshold.Group
import Mathlib.Data.List.ReduceOption

/-!
# Threshold verification (`pkg/threshold/multisig.go`)

`verifyMulti` walks the signatures once. It skips nil elements and members that were counted
already, rejects an element for one of seven reasons, keeps the first rejection for the error text,
and counts the rest.
-/

namespace Stele

open Lib List

structure MemberSig where
  memberID : Bytes
  publicKey : Bytes
  signature : Bytes
  signedAt : Int := 0
  quantumPublicKey : Bytes := []
  quantumSignature : Bytes := []
  deriving DecidableEq, Repr

variable (C : Crypto)

def MemberSig.verify (s : MemberSig) (msg : Bytes) : Res Unit := do
  ensure (s.publicKey.length = edPublicKeySize)
    (errorf "member sig %q: bad pubkey length %d" [.bytes s.memberID, .nat s.publicKey.length])
  ensure (s.signature.length = edSignatureSize)
    (errorf "member sig %q: bad signature length %d" [.bytes s.memberID, .nat s.signature.length])
  C.checkEd s.publicKey msg s.signature
    (errorf "member sig %q: invalid ed25519 signature" [.bytes s.memberID])

def judge (g : Group) (msg : Bytes) (s : MemberSig) : Res Unit := do
  match ← g.memberByID s.memberID with
  | none => throw (errorf "unknown member %q" [.bytes s.memberID])
  | some m =>
    ensure (hex s.publicKey = hex m.publicKey)
      (errorf "member %q: public key in sig does not match group's registered key"
        [.bytes s.memberID])
    s.verify C msg
    checkIf (m.quantumPublicKey ≠ []) do
      ensure (s.quantumPublicKey ≠ [] ∧ s.quantumSignature ≠ [])
        (errorf "member %q: hybrid required but cosig is classical-only (downgrade attempt?)"
          [.bytes s.memberID])
      ensure (hex s.quantumPublicKey = hex m.quantumPublicKey)
        (errorf
          "member %q: quantum pubkey in cosig does not match group's registered quantum key"
          [.bytes s.memberID])
      let qp ← wrapErr "member %q: decode quantum pubkey: %w" [.bytes s.memberID]
        (Crypto.decodeQuantum s.quantumPublicKey)
      ensure (C.dilVerify qp msg s.quantumSignature = true)
        (errorf "member %q: invalid quantum signature" [.bytes s.memberID])

structure Tally where
  counted : List Bytes := []
  valid : Nat := 0
  firstReject : Option Err := none

def tallySigs (g : Group) (msg : Bytes) : Tally → List (Option MemberSig) → Res Tally
  | t, [] => .ok t
  | t, none :: sigs => tallySigs g msg t sigs
  | t, some s :: sigs =>
    if s.memberID ∈ t.counted then tallySigs g msg t sigs
    else
      match judge C g msg s with
      | .ok () =>
        tallySigs g msg { t with counted := s.memberID :: t.counted, valid := t.valid + 1 } sigs
      | .error (.err e) => tallySigs g msg { t with firstReject := t.firstReject.or (some e) } sigs
      | .error (.panic w) => .error (.panic w)

def verifyMulti (group : Option Group) (msg : Bytes) (sigs : List (Option MemberSig)) :
    Res Unit := do
  wrapErr "threshold: invalid group: %w" [] (Group.validate group)
  match group with
  | none => .ok ()
  | some g =>
    ensure (sigs ≠ []) (errorf "threshold: no signatures provided" [])
    let t ← tallySigs C g msg {} sigs
    ensure (g.threshold ≤ t.valid)
      (match t.firstReject with
        | some e => .err (.wrap
            "threshold: only %d/%d valid sigs (need >= %d); first rejection: %w"
            [.nat t.valid, .nat sigs.length, .nat g.threshold] e)
        | none => errorf "threshold: only %d valid sigs (need >= %d)"
            [.nat t.valid, .nat g.threshold])

/-! ## What counts -/

def GoodSig (msg : Bytes) (m : Member) (s : MemberSig) : Prop :=
  s.memberID = m.id ∧ s.publicKey = m.publicKey ∧ C.EdValid m.publicKey msg s.signature ∧
    (m.quantumPublicKey ≠ [] → s.quantumPublicKey = m.quantumPublicKey ∧
      C.DilValid m.quantumPublicKey msg s.quantumSignature)

instance (msg : Bytes) (m : Member) (s : MemberSig) : Decidable (GoodSig C msg m s) :=
  inferInstanceAs (Decidable (_ ∧ _))

def signers (g : Group) (msg : Bytes) (sigs : List (Option MemberSig)) : Finset Member :=
  g.members.reduceOption.toFinset.filter fun m => ∃ s ∈ sigs.reduceOption, GoodSig C msg m s

variable {C} {msg : Bytes} {sigs : List (Option MemberSig)}

lemma mem_signers {g : Group} {m : Member} :
    m ∈ signers C g msg sigs ↔ some m ∈ g.members ∧ ∃ s, some s ∈ sigs ∧ GoodSig C msg m s := by
  simp [signers, reduceOption_mem_iff]

lemma MemberSig.verify_ok {s : MemberSig} {u : Unit} :
    s.verify C msg = .ok u ↔ C.EdValid s.publicKey msg s.signature := by
  simp only [verify, bind_ok, ensure_ok, exists_const, Crypto.checkEd_ok]
  constructor
  · rintro ⟨-, -, h⟩
    exact h
  · intro h
    exact ⟨h.1, C.edVerify_length h.2, h⟩

lemma MemberSig.noPanic_verify (s : MemberSig) : NoPanic (s.verify C msg) := by
  unfold verify
  simp +contextual [ensure_ok]

section
variable {g : Group} {ms : List Member} (hg : g.WellFormed ms) {msg : Bytes}
include hg

lemma judge_ok {s : MemberSig} {u : Unit} :
    judge C g msg s = .ok u ↔ ∃ m ∈ ms, GoodSig C msg m s := by
  rcases hg.memberByID_cases s.memberID with ⟨m, hm, hid, hlook⟩ | ⟨hid, hlook⟩
  · have hiff : judge C g msg s = .ok u ↔ GoodSig C msg m s := by
      simp only [judge, hlook, ok_bind, bind_ok, ensure_ok, exists_const, checkIf_ok, wrapErr_ok,
        Crypto.decodeQuantum_ok, MemberSig.verify_ok]
      constructor
      · rintro ⟨hkey, hed, hq⟩
        refine ⟨hid.symm, hex_inj hkey, hex_inj hkey ▸ hed, fun hne => ?_⟩
        obtain ⟨-, hqkey, _, ⟨hlen, rfl⟩, hdil⟩ := hq hne
        exact ⟨hex_inj hqkey, hex_inj hqkey ▸ ⟨hlen, hdil⟩⟩
      · rintro ⟨-, hkey, hed, hq⟩
        refine ⟨by rw [hkey], hkey ▸ hed, fun hne => ?_⟩
        obtain ⟨hqkey, hlen, hdil⟩ := hq hne
        refine ⟨⟨hqkey ▸ hne, C.dilVerify_ne_nil hdil⟩, by rw [hqkey], _, ⟨?_, rfl⟩, ?_⟩
        · rw [hqkey]; exact hlen
        · rw [hqkey]; exact hdil
    rw [hiff]
    constructor
    · exact fun h => ⟨m, hm, h⟩
    · rintro ⟨m', hm', h⟩
      -- IDs are unique, so the signature names the member that was looked up.
      have he : m' = m := by
        have h1 := hg.memberByID_eq hm'
        rw [← h.1, hlook] at h1
        simpa using h1.symm
      exact he ▸ h
  · constructor
    · simp [judge, hlook]
    · rintro ⟨m, hm, h⟩
      exact absurd (h.1 ▸ mem_map_of_mem hm) hid

lemma noPanic_judge (s : MemberSig) : NoPanic (judge C g msg s) := by
  unfold judge
  rcases hg.memberByID_cases s.memberID with ⟨m, -, -, hlook⟩ | ⟨-, hlook⟩
  · rw [hlook, ok_bind]
    simp [s.noPanic_verify]
  · rw [hlook, ok_bind]
    exact noPanic_errorf _ _

lemma tallySigs_ok (t : Tally) (sigs : List (Option MemberSig)) :
    ∃ t', tallySigs C g msg t sigs = .ok t' ∧
      t'.valid = t.valid + tallyFrom (fun s => (judge C g msg s).isOk) MemberSig.memberID t.counted
        sigs.reduceOption := by
  induction sigs generalizing t with
  | nil => exact ⟨t, rfl, rfl⟩
  | cons o sigs ih =>
    cases o with
    | none => exact ih t
    | some s =>
      rw [tallySigs, reduceOption_cons_of_some, tallyFrom]
      by_cases hs : s.memberID ∈ t.counted
      · rw [if_pos hs, if_pos hs]
        exact ih t
      · rw [if_neg hs, if_neg hs]
        cases hj : judge C g msg s with
        | ok =>
          obtain ⟨t', ht', hv⟩ := ih { t with
            counted := s.memberID :: t.counted, valid := t.valid + 1 }
          refine ⟨t', ht', ?_⟩
          rw [hv]
          exact Nat.succ_add_eq_add_succ _ _
        | error f =>
          cases f with
          | err => exact ih _
          | panic w => exact absurd hj (noPanic_judge hg s w)

lemma voters_eq (sigs : List (Option MemberSig)) :
    voters (fun s => (judge C g msg s).isOk) MemberSig.memberID sigs.reduceOption =
      (signers C g msg sigs).image Member.id := by
  have isOk_iff {x : Res Unit} : x.isOk = true ↔ x = .ok () := by
    cases x <;> simp [Except.isOk, Except.toBool]
  ext id
  simp only [mem_voters, isOk_iff, judge_ok hg, Finset.mem_image, mem_signers, hg.members,
    reduceOption_mem_iff, mem_map, Option.some.injEq, exists_eq_right]
  constructor
  · rintro ⟨s, hs, ⟨m, hm, hgood⟩, rfl⟩
    exact ⟨m, ⟨hm, s, hs, hgood⟩, hgood.1.symm⟩
  · rintro ⟨m, ⟨hm, s, hs, hgood⟩, rfl⟩
    exact ⟨s, hs, ⟨m, hm, hgood⟩, hgood.1⟩

lemma card_voters (sigs : List (Option MemberSig)) :
    (voters (fun s => (judge C g msg s).isOk) MemberSig.memberID sigs.reduceOption).card =
      (signers C g msg sigs).card := by
  rw [voters_eq hg]
  refine Finset.card_image_of_injOn fun a ha b hb hab => ?_
  have mem {m : Member} (h : m ∈ signers C g msg sigs) : m ∈ ms := by
    have := (mem_signers.mp h).1
    simpa [hg.members] using this
  exact inj_on_of_nodup_map hg.id_nodup (mem ha) (mem hb) hab

end

/-- **What `VerifyMulti` accepts**: a well-formed group of which at least `threshold` members
signed. -/
theorem verifyMulti_ok {group : Option Group} {u : Unit} : verifyMulti C group msg sigs = .ok u ↔
      ∃ g, group = some g ∧ (∃ ms, g.WellFormed ms) ∧
        g.threshold ≤ (signers C g msg sigs).card := by
  cases group with
  | none => simp [verifyMulti, Group.validate]
  | some g =>
    simp only [verifyMulti, bind_ok, wrapErr_ok, ensure_ok, exists_const, Group.validate_ok,
      Option.some.injEq, exists_eq_left']
    constructor
    · rintro ⟨⟨ms, hg⟩, -, t, ht, hle⟩
      obtain ⟨t', ht', hv⟩ := @tallySigs_ok C g ms hg msg {} sigs
      rw [ht] at ht'
      cases ht'
      rw [hv, tally_eq, card_voters hg] at hle
      exact ⟨⟨ms, hg⟩, by simpa using hle⟩
    · rintro ⟨⟨ms, hg⟩, hle⟩
      obtain ⟨t', ht', hv⟩ := @tallySigs_ok C g ms hg msg {} sigs
      rw [tally_eq, card_voters hg] at hv
      refine ⟨⟨ms, hg⟩, ?_, t', ht', by rw [hv]; simpa using hle⟩
      -- A group has a positive threshold, so an empty list has too few signers.
      rintro rfl
      have h0 : (signers C g msg []).card = 0 := by simp [signers]
      have := hg.threshold_pos
      omega

lemma signers_mono {g : Group} {sigs' : List (Option MemberSig)} (h : sigs ⊆ sigs') :
    signers C g msg sigs ⊆ signers C g msg sigs' := by
  intro m hm
  obtain ⟨hmem, s, hs, hgood⟩ := mem_signers.mp hm
  exact mem_signers.mpr ⟨hmem, s, h hs, hgood⟩

lemma verifyMulti_mono {group : Option Group} {sigs' : List (Option MemberSig)} (h : sigs ⊆ sigs')
    (hok : verifyMulti C group msg sigs = .ok ()) : verifyMulti C group msg sigs' = .ok () := by
  obtain ⟨g, hgroup, hwf, hle⟩ := verifyMulti_ok.mp hok
  exact verifyMulti_ok.mpr
    ⟨g, hgroup, hwf, hle.trans (Finset.card_le_card (signers_mono h))⟩

/-- **`VerifyMulti` is the t-of-N predicate.** It accepts exactly when the group passes `Validate`
and at least `threshold` distinct members have an element with their ID and registered keys and
valid signatures. So the order of the list does not matter, and more elements never hurt. -/
theorem verifyMulti_is_quorum (C : Crypto) (group : Option Group) (msg : Bytes)
    (sigs : List (Option MemberSig)) :
    (verifyMulti C group msg sigs = .ok () ↔
      Group.validate group = .ok () ∧ ∃ g, group = some g ∧
        ∃ S : Finset Member, g.threshold ≤ S.card ∧
          ∀ m ∈ S, some m ∈ g.members ∧ ∃ s, some s ∈ sigs ∧ GoodSig C msg m s) ∧
    (∀ sigs', sigs.Perm sigs' →
      (verifyMulti C group msg sigs = .ok () ↔ verifyMulti C group msg sigs' = .ok ())) ∧
    (∀ sigs', sigs ⊆ sigs' →
      verifyMulti C group msg sigs = .ok () → verifyMulti C group msg sigs' = .ok ()) := by
  refine ⟨?_, ?_, ?_⟩
  · rw [verifyMulti_ok]
    constructor
    · rintro ⟨g, rfl, hwf, hle⟩
      exact ⟨Group.validate_ok.mpr hwf, g, rfl, _, hle, fun m hm => mem_signers.mp hm⟩
    · rintro ⟨hval, g, rfl, S, hle, hS⟩
      have hsub : S ⊆ signers C g msg sigs := fun m hm => mem_signers.mpr (hS m hm)
      exact ⟨g, rfl, Group.validate_ok.mp hval, hle.trans (Finset.card_le_card hsub)⟩
  · intro sigs' hp
    exact ⟨verifyMulti_mono hp.subset, verifyMulti_mono hp.symm.subset⟩
  · intro sigs' hsub
    exact verifyMulti_mono hsub

end Stele
