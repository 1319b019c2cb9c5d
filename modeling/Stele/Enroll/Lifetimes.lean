import Stele.Core.ClockSkew
import Stele.Core.Enrollment
import Stele.Enroll.Clients
import Stele.Lib.Float64

/-!
# How long an enrollment lasts

The validity of an enrollment is asked for in seconds by a client of the endpoints, or as a duration
by the flag of `enroll-producer`. On its way to `ExpiresAt` it is truncated to seconds, multiplied
by 10^9 and added to the clock, all in 64 bits, and 0 stands for an enrollment that never expires.
-/

namespace Stele.Enroll

open Lib

open Core

/-! ## The way of a validity -/

def second : Int := 1000000000

def floatSeconds (d : Int) : ℚ :=
  toFloat (toFloat (d / second : Int) + toFloat (toFloat (d % second : Int) / toFloat second))

def durationSeconds (d : Int) : Int := ⌊floatSeconds d⌋

def BeginRequest.core (req : BeginRequest) : EnrollmentRequest where
  id := req.id
  publicKey := req.publicKey
  quantumPublicKey := req.quantumPublicKey
  attestationType := req.attestationType
  description := req.description
  scope := req.scope
  validity := int64 (req.validitySeconds * second)

def BeginRequest.check (req : BeginRequest) : Res Unit :=
  ensure (req.id ≠ [] ∧ req.publicKey ≠ []) (errorf "id and public_key are required" [])

/-- **A record that an endpoint issues** for the request at the time `now`, in one call or in the
two calls of the ceremony. -/
inductive Issued (C : Crypto) (req : BeginRequest) (now : Int) (p : Producer) : Prop
  | once {r : EnrollReads} {db db' : Db} (hcheck : req.check = .ok ()) (hnow : r.now = now)
      (h : enrollRecord r (issueRecord r req.core) db = (db', .ok p)) : Issued C req now p
  | ceremony {r r' : EnrollReads} {id challenge classicalSig quantumSig : Bytes}
      {pending : Pending} {db db' : Db} (hcheck : req.check = .ok ()) (hnow : r.now = now)
      (hbegin : beginEnrollment r req.core = .ok (id, challenge, pending))
      (h : enrollRecord r' (confirmRecord C r' pending classicalSig quantumSig) db =
        (db', .ok p)) : Issued C req now p

/-- A positive validity as it is asked for: `ValiditySeconds` of a request, or the flag of
`enroll-producer` in nanoseconds. -/
inductive Validity
  | endpoint (seconds : Int)
  | flag (nanos : Int)

namespace Validity

def given : Validity → Int
  | endpoint seconds => seconds
  | flag nanos => nanos

def sent : Validity → Int
  | endpoint seconds => seconds
  | flag nanos => durationSeconds nanos

def requested : Validity → Int
  | endpoint seconds => seconds * second
  | flag nanos => nanos

/-- **The lifetime is exact**: every record that is issued for it at the time `now` expires when it
was asked to, it does expire, and it is not expired when it is issued. -/
def Exact (v : Validity) (now : Int) : Prop :=
  ∀ (C : Crypto) (req : BeginRequest) (p : Producer), req.validitySeconds = v.sent →
    Issued C req now p →
    p.expiresAt = p.issuedAt + v.requested ∧ p.expiresAt ≠ 0 ∧ ¬ p.isExpired p.issuedAt

/-- The duration is a whole number of seconds below 2^63 nanoseconds, and so is the expiry, which
is not the instant that stands for never. -/
structure Fits (v : Validity) (now : Int) : Prop where
  whole : v.requested % second = 0
  duration : v.requested < 2 ^ 63
  expiry : now + v.requested < 2 ^ 63
  not_never : now + v.requested ≠ 0

instance (v : Validity) (now : Int) : Decidable (v.Fits now) :=
  decidable_of_iff (v.requested % second = 0 ∧ v.requested < 2 ^ 63 ∧
      now + v.requested < 2 ^ 63 ∧ now + v.requested ≠ 0)
    ⟨fun h => ⟨h.1, h.2.1, h.2.2.1, h.2.2.2⟩, fun h => ⟨h.whole, h.duration, h.expiry, h.not_never⟩⟩

end Validity

/-! ## Durations -/

lemma durationSeconds_whole {d : Int} (hpos : 0 ≤ d) (hd : IsInt64 d)
    (hwhole : d % second = 0) : durationSeconds d = d / second := by
  obtain ⟨n, hn⟩ := Int.eq_ofNat_of_zero_le (Int.ediv_nonneg hpos (show 0 ≤ second by decide))
  have hlt : n < 2 ^ 53 := by
    simp only [IsInt64, second] at hd hn
    omega
  have hzero : toFloat 0 = 0 := rfl
  simp only [durationSeconds, floatSeconds, hwhole, hn, Int.cast_natCast,
    Int.cast_zero, hzero, zero_div, add_zero, toFloat_natCast hlt, Int.floor_natCast]

lemma durationSeconds_bounds {d : Int} (hpos : 0 ≤ d) (hd : IsInt64 d) :
    0 ≤ durationSeconds d ∧ durationSeconds d ≤ 2 * (d / second) + 4 := by
  obtain ⟨sec, hsec⟩ := Int.eq_ofNat_of_zero_le (Int.ediv_nonneg hpos (show 0 ≤ second by decide))
  obtain ⟨nsec, hnsec⟩ := Int.eq_ofNat_of_zero_le (Int.emod_nonneg d (show second ≠ 0 by decide))
  have hlt : sec < 2 ^ 53 ∧ nsec < 1000000000 := by
    simp only [IsInt64, second] at hd hsec hnsec
    omega
  have hbillion : toFloat second = 1000000000 := by
    exact_mod_cast @toFloat_natCast 1000000000 (by norm_num)
  have hfrac : (0 : ℚ) ≤ nsec / 1000000000 := by positivity
  have hfrac' : toFloat (nsec / 1000000000) ≤ 2 := by
    have hone : (nsec : ℚ) / 1000000000 ≤ 1 := by
      rw [div_le_one (by norm_num)]
      exact_mod_cast hlt.2.le
    linarith [toFloat_le hfrac]
  have hsum : (0 : ℚ) ≤ sec + toFloat (nsec / 1000000000) :=
    add_nonneg (Nat.cast_nonneg _) (toFloat_nonneg hfrac)
  -- Both parts of the duration are exact, so that only the quotient and the sum are rounded.
  have heq : floatSeconds d = toFloat (sec + toFloat (nsec / 1000000000)) := by
    simp only [floatSeconds, hsec, hnsec, Int.cast_natCast, hbillion,
      toFloat_natCast hlt.1, toFloat_natCast (lt_trans hlt.2 (by norm_num))]
  simp only [durationSeconds, heq, hsec]
  refine ⟨Int.floor_nonneg.mpr (toFloat_nonneg hsum), ?_⟩
  rw [Int.floor_le_iff]
  push_cast
  linarith [toFloat_le hsum]

namespace Validity

lemma sent_of_whole {v : Validity} (hpos : 0 < v.given) (hgiven : IsInt64 v.given)
    (hwhole : v.requested % second = 0) : v.sent * second = v.requested := by
  cases v with
  | endpoint => rfl
  | flag nanos =>
    have hsent := durationSeconds_whole (show 0 ≤ nanos from hpos.le) hgiven hwhole
    simp only [sent, requested, hsent]
    exact Int.ediv_mul_cancel (Int.dvd_of_emod_eq_zero hwhole)

lemma sent_of_not_whole {v : Validity} (hpos : 0 < v.given) (hgiven : IsInt64 v.given)
    (hwhole : v.requested % second ≠ 0) (k : Int) : v.sent * second ≠ v.requested + k * 2 ^ 64 := by
  cases v with
  | endpoint seconds => exact absurd (Int.mul_emod_left seconds second) hwhole
  | flag nanos =>
    obtain ⟨hnonneg, hle⟩ := durationSeconds_bounds (show 0 ≤ nanos from hpos.le) hgiven
    simp only [sent, requested, given, IsInt64, second] at *
    intro heq
    have hk : k = 0 := by omega
    subst hk
    omega

end Validity

/-! ## Records -/

def expiryOf (now validitySeconds : Int) : Int :=
  if 0 < int64 (validitySeconds * second) then int64 (now + int64 (validitySeconds * second)) else 0

lemma Issued.expiresAt_eq {C : Crypto} {req : BeginRequest} {now : Int} {p : Producer}
    (h : Issued C req now p) :
    p.issuedAt = now ∧ p.expiresAt = expiryOf now req.validitySeconds := by
  have hrecord : ∀ {r : EnrollReads} {x : Res Producer} {db db' : Db},
      enrollRecord r x db = (db', .ok p) → x = .ok p := by
    intro r x db db' h
    unfold enrollRecord at h
    cases x with
    | error => cases h
    | ok =>
      simp only at h
      split at h
      · cases h
      · cases h
        rfl
  cases h with
  | once _ hnow h =>
    subst hnow
    have hissue := hrecord h
    simp only [issueRecord, bind_ok, ensure_ok, exists_const] at hissue
    obtain ⟨_, -, ⟨epoch, sig⟩, -, -, hq⟩ := hissue
    obtain ⟨key, qsig, rfl⟩ := quantumEnroll_ok hq
    exact ⟨rfl, rfl⟩
  | ceremony _ hnow hbegin h =>
    subst hnow
    simp only [beginEnrollment, bind_ok, ensure_ok, exists_const, pure_ok, Prod.mk.injEq] at hbegin
    obtain ⟨_, -, _, -, nonce, -, -, -, -, rfl⟩ := hbegin
    have hconfirm := hrecord h
    simp only [confirmRecord, bind_ok, ensure_ok, wrapErr_ok, exists_const] at hconfirm
    obtain ⟨-, asked, hasked, _, -, ⟨epoch, sig⟩, -, -, hq⟩ := hconfirm
    obtain ⟨qsig, rfl⟩ := answered_ok hasked
    obtain ⟨key, osig, rfl⟩ := quantumEnroll_ok hq
    exact ⟨rfl, rfl⟩

def sampleRequest (validitySeconds : Int) : BeginRequest where
  id := lit "p"
  publicKey := List.replicate edPublicKeySize 1
  attestationType := lit "software"
  validitySeconds := validitySeconds

def sampleReads (now : Int) : EnrollReads where
  now := now
  activeEpoch := 0
  sign := fun _ => .ok (0, [1])

lemma issued_sample (C : Crypto) (validitySeconds now : Int) :
    ∃ p, Issued C (sampleRequest validitySeconds) now p := by
  have hissued : ∃ p db', enrollRecord (sampleReads now)
      (issueRecord (sampleReads now) (sampleRequest validitySeconds).core) .empty = (db', .ok p) :=
    ⟨_, _, rfl⟩
  obtain ⟨p, db', h⟩ := hissued
  exact ⟨p, .once rfl rfl h⟩

lemma Validity.exact_iff (v : Validity) (now : Int) :
    v.Exact now ↔
      0 < int64 (v.sent * second) ∧ int64 (now + int64 (v.sent * second)) = now + v.requested ∧
        now + v.requested ≠ 0 ∧ 0 < v.requested := by
  constructor
  · intro h
    obtain ⟨p, hp⟩ := issued_sample .sample v.sent now
    obtain ⟨heq, hne, hlive⟩ := h .sample (sampleRequest v.sent) p rfl hp
    obtain ⟨hissued, hexpires⟩ := hp.expiresAt_eq
    rw [show (sampleRequest v.sent).validitySeconds = v.sent from rfl, expiryOf] at hexpires
    simp only [Producer.isExpired, hissued] at heq hne hlive
    by_cases hpos : 0 < int64 (v.sent * second)
    · rw [if_pos hpos] at hexpires
      refine ⟨hpos, ?_, ?_, ?_⟩
      · rw [← hexpires, heq]
      · rw [← heq]
        exact hne
      · omega
    · rw [if_neg hpos] at hexpires
      exact absurd hexpires hne
  · rintro ⟨hpos, heq, hne, hlive⟩ C req p hsent hp
    obtain ⟨hissued, hexpires⟩ := hp.expiresAt_eq
    simp only [expiryOf, hsent, if_pos hpos, heq] at hexpires
    simp only [Producer.isExpired, hissued, hexpires]
    refine ⟨trivial, hne, ?_⟩
    omega

/-- **Lifetimes are exact**: a positive validity gives every record that is issued for it the expiry
that was asked for, exactly when the duration is a whole number of seconds, the expiry fits into 64
bits, and it is not the instant that stands for never. -/
theorem lifetimes_exact_iff (v : Validity) (hpos : 0 < v.given) (hgiven : IsInt64 v.given)
    (now : Int) (hnow : IsInt64 now) : v.Exact now ↔ v.Fits now := by
  have hrequested : 0 < v.requested := by
    cases v with
    | endpoint seconds =>
      simp only [Validity.requested, Validity.given, second] at *
      omega
    | flag nanos => exact hpos
  rw [v.exact_iff]
  obtain ⟨k, hdur, hdur64⟩ := int64_spec (v.sent * second)
  obtain ⟨l, hexp, hexp64⟩ := int64_spec (now + int64 (v.sent * second))
  simp only [IsInt64] at hnow hdur64 hexp64
  constructor
  · rintro ⟨hlive, heq, hne, -⟩
    have hwhole : v.requested % second = 0 := by
      by_contra hnot
      refine v.sent_of_not_whole hpos hgiven hnot (-(k + l)) ?_
      omega
    have hsent := v.sent_of_whole hpos hgiven hwhole
    rw [hsent] at hdur hlive hdur64 heq hexp64
    refine ⟨hwhole, ?_, ?_, hne⟩
    -- The expiry bounds the duration by 2^64, and from 2^63 on it would be negative.
    · omega
    · omega
  · intro hfits
    have hsent := v.sent_of_whole hpos hgiven hfits.whole
    obtain ⟨-, hduration, hexpiry, hne⟩ := hfits
    rw [hsent] at hdur hdur64 hexp64 hexp ⊢
    refine ⟨?_, ?_, hne, hrequested⟩ <;> omega

theorem lifetimes_exact_iff_day :
    (Validity.flag (86400 * second)).Exact 1782489600000000000 :=
  (lifetimes_exact_iff (.flag (86400 * second)) (by decide) (by decide) 1782489600000000000
    (by decide)).mpr (by decide)

/-- **Half a second is for ever**: `--validity 500ms` is sent as 0 seconds. A request for 9000000000
seconds is answered with a record that is already expired. -/
theorem lifetimes_not_exact :
    durationSeconds 500000000 = 0 ∧
      (issueRecord (sampleReads 1782489600000000000)
        (sampleRequest (durationSeconds 500000000)).core).toOption.map Producer.expiresAt =
        some 0 ∧
      ((issueRecord (sampleReads 1782489600000000000)
        (sampleRequest 9000000000).core).toOption.map fun p =>
          decide (p.isExpired p.issuedAt)) = some true := by
  decide +kernel

end Stele.Enroll
