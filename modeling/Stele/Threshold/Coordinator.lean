import Stele.Threshold.Multisig

/-!
# Collecting member signatures (`pkg/threshold/coordinator.go`)

The coordinator asks every member that has an endpoint and reads the answers in the order they
arrive, until all of them are in. What a cosigner answers is arbitrary (`Reply`); a `Round` is one
answer for each member asked, in some order.
-/

namespace Stele

open Lib List

inductive Reply
  | transport (cause : Err)
  | http (status : Nat) (body : Bytes) (sig : Option (Option MemberSig))

def signOne (m : Member) : Reply → Res MemberSig
  | .transport cause => .error (.err (.wrap "cosigner %s: %w" [.bytes m.id] cause))
  | .http status body sig =>
    if status / 100 ≠ 2 then
      .error (errorf "cosigner %s HTTP %d: %s" [.bytes m.id, .nat status, .bytes body])
    else
      match sig with
      | none => .error (errorf "json: cannot unmarshal value into Go value" [])
      | some none => .error (errorf "cosigner returned nil sig" [])
      | some (some s) => .ok s

def Group.asked (g : Group) : List Member := g.members.reduceOption.filter (·.endpoint ≠ [])

structure Round (g : Group) where
  arrivals : List (Member × Reply)
  perm : (arrivals.map Prod.fst).Perm g.asked

structure SignResult where
  sigs : List MemberSig
  errs : List Err
  err : Option Err
  deriving DecidableEq

variable (C : Crypto)

def acceptSig (g : Group) (msg : Bytes) (s : MemberSig) : Res Unit := do
  wrapErr "member %s returned invalid sig: %w" [.bytes s.memberID] (s.verify C msg)
  match ← g.memberByID s.memberID with
  | none => throw (errorf "member %s returned mismatched public key" [.bytes s.memberID])
  | some m =>
    ensure (m.publicKey = s.publicKey)
      (errorf "member %s returned mismatched public key" [.bytes s.memberID])

def gather (g : Group) (msg : Bytes) :
    List MemberSig → List Err → List (Member × Reply) → Res (List MemberSig × List Err)
  | gathered, errs, [] => .ok (gathered, errs)
  | gathered, errs, (m, r) :: arrivals =>
    match signOne m r with
    | .error (.panic w) => .error (.panic w)
    | .error (.err e) => gather g msg gathered (errs ++ [e]) arrivals
    | .ok s =>
      match acceptSig C g msg s with
      | .error (.panic w) => .error (.panic w)
      | .error (.err e) => gather g msg gathered (errs ++ [e]) arrivals
      | .ok () => gather g msg (gathered ++ [s]) errs arrivals

def Group.sign (g : Group) (msg : Bytes) (round : Round g) : Res SignResult :=
  match Group.validate (some g) with
  | .error (.panic w) => .error (.panic w)
  | .error (.err e) => .ok ⟨[], [], some e⟩
  | .ok () => do
    let (gathered, errs) ← gather C g msg [] [] round.arrivals
    if gathered.length % 2 ^ 32 < g.threshold then
      return ⟨gathered, errs, some (.errorf
        "threshold not reached: %d/%d valid sigs (need %d); errors=%v"
        [.nat gathered.length, .nat g.members.length, .nat g.threshold])⟩
    else
      return ⟨gathered, errs, none⟩

/-! ## What a round returns -/

def Reply.sig? : Reply → Option MemberSig
  | .http status _ (some (some s)) => if status / 100 = 2 then some s else none
  | _ => none

def Round.sigs {g : Group} (round : Round g) : List MemberSig :=
  round.arrivals.filterMap fun a => a.2.sig?

def Accepts (g : Group) (msg : Bytes) (s : MemberSig) : Prop :=
  C.EdValid s.publicKey msg s.signature ∧
    ∃ m ∈ g.members.reduceOption, m.id = s.memberID ∧ m.publicKey = s.publicKey

instance (g : Group) (msg : Bytes) (s : MemberSig) : Decidable (Accepts C g msg s) :=
  inferInstanceAs (Decidable (_ ∧ _))

variable {C}

section
variable {g : Group} {ms : List Member} (hg : g.WellFormed ms) {msg : Bytes}
include hg

lemma acceptSig_ok {s : MemberSig} {u : Unit} :
    acceptSig C g msg s = .ok u ↔ Accepts C g msg s := by
  unfold Accepts
  have hms : g.members.reduceOption = ms := by rw [hg.members]; simp [List.reduceOption]
  rw [hms]
  rcases hg.memberByID_cases s.memberID with ⟨m, hm, hid, hlook⟩ | ⟨hid, hlook⟩
  · simp only [acceptSig, bind_ok, wrapErr_ok, MemberSig.verify_ok, exists_const, hlook,
      Except.ok.injEq, exists_eq_left', ensure_ok]
    refine and_congr_right fun _ => ?_
    constructor
    · exact fun hkey => ⟨m, hm, hid, hkey⟩
    · rintro ⟨m', hm', hid', hkey⟩
      have he : m = m' := inj_on_of_nodup_map hg.id_nodup hm hm' (hid.trans hid'.symm)
      exact he ▸ hkey
  · simp only [acceptSig, bind_ok, wrapErr_ok, MemberSig.verify_ok, exists_const, hlook,
      Except.ok.injEq, exists_eq_left', throw_ok, and_false, false_iff]
    rintro ⟨-, m, hm, hid', -⟩
    exact hid (hid' ▸ mem_map_of_mem hm)

lemma noPanic_acceptSig (s : MemberSig) : NoPanic (acceptSig C g msg s) := by
  rcases hg.memberByID_cases s.memberID with ⟨m, -, -, hlook⟩ | ⟨-, hlook⟩ <;>
    simp [acceptSig, s.noPanic_verify, hlook]

omit hg in
lemma signOne_cases (m : Member) (r : Reply) :
    (∃ e, signOne m r = .error (.err e) ∧ r.sig? = none) ∨
      ∃ s, signOne m r = .ok s ∧ r.sig? = some s := by
  cases r with
  | transport => exact .inl ⟨_, rfl, rfl⟩
  | http status body sig =>
    by_cases hst : status / 100 = 2
    · have hne : ¬ status / 100 ≠ 2 := not_not.mpr hst
      rcases sig with _ | _ | s
      · exact .inl ⟨_, if_neg hne, rfl⟩
      · exact .inl ⟨_, if_neg hne, rfl⟩
      · exact .inr ⟨s, if_neg hne, if_pos hst⟩
    · refine .inl ⟨_, if_pos hst, ?_⟩
      rcases sig with _ | _ | s
      · rfl
      · rfl
      · exact if_neg hst

lemma gather_ok (gathered : List MemberSig) (errs : List Err) (arrivals : List (Member × Reply)) :
    ∃ errs', gather C g msg gathered errs arrivals =
      .ok (gathered ++ (arrivals.filterMap fun a => a.2.sig?).filter (Accepts C g msg ·),
        errs') := by
  induction arrivals generalizing gathered errs with
  | nil => exact ⟨errs, by simp [gather]⟩
  | cons a arrivals ih =>
    obtain ⟨m, r⟩ := a
    rcases signOne_cases m r with ⟨e, hs, hnone⟩ | ⟨s, hs, hsome⟩
    · simp only [gather, hs, filterMap_cons, hnone]
      exact ih gathered _
    · simp only [gather, hs, filterMap_cons, hsome]
      by_cases hacc : Accepts C g msg s
      · rw [(acceptSig_ok hg (u := ())).mpr hacc]
        simpa [filter_cons, hacc] using ih (gathered ++ [s]) errs
      · cases hj : acceptSig C g msg s with
        | ok => exact absurd ((acceptSig_ok hg).mp hj) hacc
        | error f =>
          cases f with
          | panic w => exact absurd hj (noPanic_acceptSig hg s w)
          | err e => simpa [filter_cons, hacc] using ih gathered (errs ++ [e])

lemma sign_ok {round : Round g} {sigs : List MemberSig} :
    (∃ errs, g.sign C msg round = .ok ⟨sigs, errs, none⟩) ↔
      sigs = round.sigs.filter (Accepts C g msg ·) ∧ g.threshold ≤ sigs.length % 2 ^ 32 := by
  obtain ⟨errs', hgather⟩ : ∃ errs', gather C g msg [] [] round.arrivals =
      .ok (round.sigs.filter (Accepts C g msg ·), errs') := gather_ok hg [] [] round.arrivals
  have hval : Group.validate (some g) = .ok () := Group.validate_ok.mpr ⟨ms, hg⟩
  simp only [Group.sign, hval, hgather, ok_bind]
  split
  · rename_i hlt
    simp only [pure_ok, SignResult.mk.injEq, reduceCtorEq, and_false, exists_false, false_iff]
    rintro ⟨rfl, hle⟩
    omega
  · rename_i hge
    simp only [pure_ok, SignResult.mk.injEq, and_true]
    constructor
    · rintro ⟨errs, rfl, -⟩
      exact ⟨rfl, by omega⟩
    · rintro ⟨rfl, -⟩
      exact ⟨errs', rfl, rfl⟩

omit hg in
lemma signers_accepted (sigs : List MemberSig) :
    signers C g msg ((sigs.filter (Accepts C g msg ·)).map some) =
      signers C g msg (sigs.map some) := by
  ext m
  simp only [mem_signers, mem_map, mem_filter, decide_eq_true_eq, Option.some.injEq,
    exists_eq_right]
  constructor
  · rintro ⟨hm, s, ⟨hs, -⟩, hgood⟩
    exact ⟨hm, s, hs, hgood⟩
  · rintro ⟨hm, s, hs, hgood⟩
    refine ⟨hm, s, ⟨hs, ?_, m, reduceOption_mem_iff.mpr hm, hgood.1.symm, hgood.2.1.symm⟩, hgood⟩
    rw [hgood.2.1]
    exact hgood.2.2.1

end

/-- **When a successful round verifies.** For a valid group and any answers: whenever `Sign`
succeeds its signatures pass `VerifyMulti`, if and only if either fewer than `threshold` answers
pass the coordinator's checks, or `threshold` distinct members answered with a complete
signature. -/
theorem sign_verifiable_iff (C : Crypto) (g : Group) (msg : Bytes) (round : Round g)
    (hg : Group.validate (some g) = .ok ()) :
    (∀ sigs errs, g.sign C msg round = .ok ⟨sigs, errs, none⟩ →
      verifyMulti C (some g) msg (sigs.map some) = .ok ()) ↔
    (round.sigs.filter (Accepts C g msg ·)).length % 2 ^ 32 < g.threshold ∨
      g.threshold ≤ (signers C g msg (round.sigs.map some)).card := by
  obtain ⟨ms, hwf⟩ := Group.validate_ok.mp hg
  have hver : verifyMulti C (some g) msg ((round.sigs.filter (Accepts C g msg ·)).map some) = .ok ()
      ↔ g.threshold ≤ (signers C g msg (round.sigs.map some)).card := by
    rw [verifyMulti_ok, ← signers_accepted]
    constructor
    · rintro ⟨g', hg', -, h⟩
      cases hg'
      exact h
    · exact fun h => ⟨g, rfl, ⟨ms, hwf⟩, h⟩
  constructor
  · intro h
    by_cases hlt : (round.sigs.filter (Accepts C g msg ·)).length % 2 ^ 32 < g.threshold
    · exact .inl hlt
    · obtain ⟨errs, hs⟩ := (sign_ok hwf).mpr ⟨rfl, not_lt.mp hlt⟩
      exact .inr (hver.mp (h _ errs hs))
  · rintro h sigs errs hs
    obtain ⟨rfl, hle⟩ := (sign_ok hwf).mp ⟨errs, hs⟩
    rcases h with hlt | hcard
    · omega
    · exact hver.mpr hcard

/-! ### A replayed answer -/

def replayGroup : Group where
  version := 1
  origin := lit "log"
  members := [
    some { id := lit "a", publicKey := List.replicate 32 1, endpoint := lit "http://a" },
    some { id := lit "b", publicKey := List.replicate 32 2, endpoint := lit "http://b" }]
  threshold := 2
  createdAt := 0

def replaySig : MemberSig where
  memberID := lit "a"
  publicKey := List.replicate 32 1
  signature := Crypto.sample.edSign (List.replicate 32 1) (lit "m")

def replayRound : Round replayGroup where
  arrivals := replayGroup.asked.map fun m => (m, .http 200 [] (some (some replaySig)))
  perm := by
    rw [map_map]
    exact List.Perm.of_eq (map_id _)

/-- **A replayed answer makes a round succeed with signatures that do not verify.** -/
theorem sign_replay_unverifiable :
    Group.validate (some replayGroup) = .ok () ∧
    replayGroup.sign Crypto.sample (lit "m") replayRound = .ok ⟨[replaySig, replaySig], [], none⟩ ∧
    verifyMulti Crypto.sample (some replayGroup) (lit "m") [some replaySig, some replaySig] ≠
      .ok () :=
  ⟨rfl, rfl, by decide⟩

def honestRound : Round replayGroup where
  arrivals := replayGroup.asked.map fun m => (m, .http 200 [] (some (some {
    memberID := m.id
    publicKey := m.publicKey
    signature := Crypto.sample.edSign m.publicKey (lit "m") })))
  perm := by
    rw [map_map]
    exact List.Perm.of_eq (map_id _)

theorem sign_verifiable_iff_honest :
    ∃ sigs errs, replayGroup.sign Crypto.sample (lit "m") honestRound = .ok ⟨sigs, errs, none⟩ ∧
      verifyMulti Crypto.sample (some replayGroup) (lit "m") (sigs.map some) = .ok () :=
  ⟨_, _, rfl, (sign_verifiable_iff Crypto.sample replayGroup (lit "m") honestRound rfl).mpr
    (.inr (by decide)) _ _ rfl⟩

end Stele
