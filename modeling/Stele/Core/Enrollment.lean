import Stele.Core.Guarantees

/-!
# Enrollment (`pkg/core/log.go`)

How a record gets into the producer registry. `IssueEnrollment` signs a record without the producer;
`BeginEnrollment` and `ConfirmEnrollment` are the ceremony in which the producer proves that it has
the key; `RegisterProducer` takes any record.
-/

namespace Stele

open Lib

variable {R : RangeImpl Bytes}

namespace Core

/-! ## The calls -/

structure EnrollmentRequest where
  id : Bytes
  publicKey : Bytes
  quantumPublicKey : Bytes := []
  attestationType : Bytes := []
  description : Bytes := []
  scope : Bytes := []
  validity : Int := 0
  deriving DecidableEq, Repr

/-- What an enrollment call reads: the database's error, the clock, the operator's signer and
random bytes. -/
structure EnrollReads where
  fault : Option Err := none
  now : Int
  later : Int := now
  activeEpoch : Nat
  sign : Bytes → Except Err (Nat × Bytes)
  hybrid : Bool := false
  quantumSign : Bytes → Except Err Bytes := fun _ => .ok []
  quantumPublicKeyAt : Nat → Bytes := fun _ => []
  idRaw : Except Err Bytes := .ok []
  nonce : Except Err Bytes := .ok []

namespace EnrollmentRequest

def check (req : EnrollmentRequest) : Res Unit := do
  ensure (req.id ≠ []) (errorf "enrollment: ID required" [])
  ensure (req.publicKey ≠ []) (errorf "enrollment: PublicKey required" [])

def producer (req : EnrollmentRequest) (now : Int) (activeEpoch : Nat) (nonce : Bytes) :
    Producer where
  id := req.id
  publicKey := req.publicKey
  quantumPublicKey := req.quantumPublicKey
  attestationType := req.attestationType
  description := req.description
  scope := req.scope
  issuedAt := now
  expiresAt := if 0 < req.validity then int64 (now + req.validity) else 0
  operatorEpoch := activeEpoch
  registeredAt := now
  challengeNonce := nonce

end EnrollmentRequest

def quantumEnroll (r : EnrollReads) (failed : String) (prod : Producer) : Res Producer :=
  if r.hybrid = true ∧ prod.quantumPublicKey ≠ [] then do
    let qsig ← wrapErr failed [] ((r.quantumSign prod.canonicalEnrollment).mapError .err)
    return { prod with
      quantumOperatorPubKey := r.quantumPublicKeyAt prod.operatorEpoch
      quantumSignature := qsig }
  else .ok prod

def issueRecord (r : EnrollReads) (req : EnrollmentRequest) : Res Producer := do
  req.check
  let prod := req.producer r.now r.activeEpoch []
  let (epoch, sig) ← wrapErr "enrollment classical sign: %w" []
    ((r.sign prod.canonicalEnrollment).mapError .err)
  ensure (epoch = r.activeEpoch)
    (errorf "enrollment signed by epoch %d, expected active %d" [.nat epoch, .nat r.activeEpoch])
  quantumEnroll r "enrollment quantum sign: %w" { prod with signature := sig }

structure Pending where
  prod : Producer
  expiresAt : Int

def defaultChallengeTTL : Int := 5 * 60 * 1000000000

def beginEnrollment (r : EnrollReads) (req : EnrollmentRequest) :
    Res (Bytes × Bytes × Pending) := do
  req.check
  let idRaw ← wrapErr "enrollment: nonce: %w" [] (r.idRaw.mapError .err)
  let nonce ← wrapErr "enrollment: nonce: %w" [] (r.nonce.mapError .err)
  let prod := req.producer r.now r.activeEpoch nonce
  let challenge := prod.challengeBytes
  ensure (challenge ≠ []) (errorf "enrollment: failed to build challenge bytes" [])
  return (hex idRaw, challenge, ⟨prod, r.later + defaultChallengeTTL⟩)

def answered (prod : Producer) (classicalSig quantumSig : Bytes) : Res Producer := do
  let prod := { prod with challengeSignature := classicalSig }
  if prod.quantumPublicKey ≠ [] then
    ensure (quantumSig ≠ [])
      (errorf "enrollment: hybrid producer requires quantum signature on challenge" [])
    return { prod with quantumChallengeSignature := quantumSig }
  else return prod

def confirmRecord (C : Crypto) (r : EnrollReads) (pending : Pending)
    (classicalSig quantumSig : Bytes) : Res Producer := do
  ensure (r.now ≤ pending.expiresAt) (errorf "enrollment: challenge expired" [])
  let prod ← answered pending.prod classicalSig quantumSig
  wrapErr "enrollment: producer consent: %w" [] (prod.verifyConsent C)
  let (epoch, sig) ← wrapErr "enrollment: operator sign: %w" []
    ((r.sign prod.canonicalEnrollment).mapError .err)
  ensure (epoch = prod.operatorEpoch)
    (errorf "enrollment: operator epoch drift (signed %d, expected %d)"
      [.nat epoch, .nat prod.operatorEpoch])
  quantumEnroll r "enrollment: operator quantum sign: %w" { prod with signature := sig }

def enrollRecord (r : EnrollReads) (prod : Res Producer) (db : Db) : Db × Res Producer :=
  match prod with
  | .error f => (db, .error f)
  | .ok prod =>
    match db.registerProducer r.fault r.now prod with
    | (db, .error f) => (db, .error f)
    | (db, .ok ()) => (db, .ok prod)

/-! ## The operator -/

namespace Enrollment

structure State (R : RangeImpl Bytes) where
  core : Core.State R
  pending : AList fun _ : Bytes => Pending

inductive Action
  | core (a : Core.Action)
  | issueEnrollment (r : EnrollReads) (req : EnrollmentRequest)
  | beginEnrollment (r : EnrollReads) (req : EnrollmentRequest)
  | confirmEnrollment (r : EnrollReads) (challengeID classicalSig quantumSig : Bytes)
  | janitor (now : Int)

def init (R : RangeImpl Bytes) : State R := ⟨Core.init R, ∅⟩

def unexpired (now : Int) (pending : AList fun _ : Bytes => Pending) :
    AList fun _ : Bytes => Pending where
  entries := pending.entries.filter fun e => decide (now ≤ e.2.expiresAt)
  nodupKeys := pending.nodupKeys.sublist List.filter_sublist

/-- One action. A process that dies forgets its challenges, and nobody answers a call while no
process runs. -/
def step (C : Crypto) (opts : Options) (s : State R) (a : Action) : State R :=
  match a with
  | .core .crash => ⟨Core.step C opts s.core .crash, ∅⟩
  | .core a => { s with core := Core.step C opts s.core a }
  | .issueEnrollment r req =>
    if s.core.proc.isNone then s
    else { s with core.db := (enrollRecord r (issueRecord r req) s.core.db).1 }
  | .beginEnrollment r req =>
    if s.core.proc.isNone then s
    else
      match Core.beginEnrollment r req with
      | .error _ => s
      | .ok (id, _, p) => { s with pending := s.pending.insert id p }
  | .confirmEnrollment r id classicalSig quantumSig =>
    match s.pending.lookup id with
    | none => s
    | some p =>
      -- the challenge is gone whether or not the answer is right
      { core.db := (enrollRecord r (confirmRecord C r p classicalSig quantumSig) s.core.db).1
        core.proc := s.core.proc
        core.returned := s.core.returned
        pending := s.pending.erase id }
  | .janitor now => { s with pending := unexpired now s.pending }

end Enrollment

end Core

/-! ## Records that both sides signed -/

def Producer.Vouched (C : Crypto) (id : Bytes) (p : Producer) : Prop :=
  p.hasEnrollment → p.TermsUtf8 ∧ p.id = id ∧ p.verifyConsent C = .ok ()

variable {C : Crypto}

namespace Db

def Vouched (C : Crypto) (db : Db) : Prop :=
  ∀ id doc, db.producer.lookup id = some doc → ∃ p : Producer, doc = some p.toJson ∧ p.Vouched C id

variable {db : Db}

section

variable (h : db.Vouched C)

include h

lemma Vouched.of_eq {db' : Db} (heq : db'.producer = db.producer) :
    db'.Vouched C := by
  intro id doc hdoc
  rw [heq] at hdoc
  exact h id doc hdoc

lemma Vouched.insert {id : Bytes} {p : Producer} (hp : p.Vouched C id) :
    Vouched C { db with producer := db.producer.insert id (some p.toJson) } := by
  intro id' doc hdoc
  by_cases hid : id' = id
  · subst hid
    simp only [AList.lookup_insert, Option.some.injEq] at hdoc
    exact ⟨p, hdoc.symm, hp⟩
  · simp only [AList.lookup_insert_ne hid] at hdoc
    exact h id' doc hdoc

lemma Vouched.getProducer {fault : Option Err} {id : Bytes} {prod : Producer}
    (hget : db.getProducer fault id = .ok prod) (henrolled : prod.hasEnrollment) :
    prod.id = id ∧ prod.verifyConsent C = .ok () := by
  unfold Db.getProducer view at hget
  cases fault with
  | some => cases hget
  | none =>
    simp only at hget
    cases hdoc : db.producer.lookup id with
    | none => simp [hdoc] at hget
    | some doc =>
      obtain ⟨p, rfl, hp⟩ := h id doc hdoc
      simp only [hdoc, Doc.decode] at hget
      have hsig : p.signature = prod.signature := by
        rw [Producer.ofJson_toJson_coerce] at hget
        cases hget
        rfl
      have henrolled' : p.hasEnrollment := by
        rw [Producer.hasEnrollment, hsig]
        exact henrolled
      obtain ⟨hutf8, hid, hconsent⟩ := hp henrolled'
      rw [Producer.ofJson_toJson hutf8] at hget
      cases hget
      exact ⟨hid, hconsent⟩

lemma Vouched.registerProducer (fault : Option Err) (now : Int) {p : Producer}
    (hp : p.Vouched C p.id) : (db.registerProducer fault now p).1.Vouched C := by
  unfold Db.registerProducer
  split
  · exact h
  · split
    · exact h
    · rcases db.update_cases fault _ with ⟨db', htxn, heq⟩ | ⟨f, heq⟩
      · rw [heq]
        cases htxn
        split
        · exact h.insert hp
        · exact h.insert hp
      · rw [heq]
        exact h

lemma Vouched.revokeProducer (fault : Option Err) (now : Int)
    (id reason : Bytes) : (db.revokeProducer fault now id reason).1.Vouched C := by
  unfold Db.revokeProducer
  rcases db.update_cases fault _ with ⟨db', htxn, heq⟩ | ⟨f, heq⟩
  · rw [heq]
    simp only at htxn
    cases hdoc : db.producer.lookup id with
    | none => simp [hdoc] at htxn
    | some doc =>
      obtain ⟨p, rfl, hp⟩ := h id doc hdoc
      simp only [hdoc, Doc.decode, Producer.ofJson_toJson_coerce, ok_bind] at htxn
      cases htxn
      refine h.insert fun henrolled => ?_
      obtain ⟨hutf8, hid, hconsent⟩ := hp henrolled
      obtain ⟨hid', hatt, hscope⟩ := hutf8
      refine ⟨⟨?_, ?_, ?_⟩, ?_, ?_⟩
      all_goals simp only [coerce_of_utf8 hid', coerce_of_utf8 hatt, coerce_of_utf8 hscope]
      · exact hid'
      · exact hatt
      · exact hscope
      · exact hid
      · exact hconsent
  · rw [heq]
    exact h

end

end Db

namespace Core

variable {opts : Options}

lemma quantumEnroll_ok {r : EnrollReads} {failed : String} {prod prod' : Producer}
    (h : quantumEnroll r failed prod = .ok prod') :
    ∃ key sig, prod' = { prod with quantumOperatorPubKey := key, quantumSignature := sig } := by
  unfold quantumEnroll at h
  split at h
  · simp only [bind_ok, pure_ok] at h
    obtain ⟨sig, -, rfl⟩ := h
    exact ⟨_, _, rfl⟩
  · cases h
    exact ⟨_, _, rfl⟩

lemma answered_ok {prod prod' : Producer} {classicalSig quantumSig : Bytes}
    (h : answered prod classicalSig quantumSig = .ok prod') :
    ∃ qsig, prod' = { prod with
      challengeSignature := classicalSig, quantumChallengeSignature := qsig } := by
  unfold answered at h
  simp only at h
  split at h
  · simp only [bind_ok, ensure_ok, exists_const, pure_ok] at h
    obtain ⟨-, rfl⟩ := h
    exact ⟨_, rfl⟩
  · cases h
    exact ⟨_, rfl⟩

lemma confirmRecord_vouched {r : EnrollReads} {pending : Pending}
    {classicalSig quantumSig : Bytes} {prod : Producer} (hutf8 : pending.prod.TermsUtf8)
    (h : confirmRecord C r pending classicalSig quantumSig = .ok prod) :
    prod.Vouched C prod.id := by
  simp only [confirmRecord, bind_ok, ensure_ok, wrapErr_ok, exists_const] at h
  obtain ⟨-, asked, hasked, _, hconsent, ⟨epoch, sig⟩, -, -, hq⟩ := h
  obtain ⟨qsig, rfl⟩ := answered_ok hasked
  obtain ⟨key, osig, rfl⟩ := quantumEnroll_ok hq
  exact fun _ => ⟨hutf8, rfl, hconsent⟩

lemma enrollRecord_vouched {db : Db} (h : db.Vouched C) (r : EnrollReads) {prod : Res Producer}
    (hprod : ∀ p, prod = .ok p → p.Vouched C p.id) : (enrollRecord r prod db).1.Vouched C := by
  cases prod with
  | error => exact h
  | ok p =>
    have hreg := h.registerProducer r.fault r.now (hprod p rfl)
    unfold enrollRecord
    rcases hr : db.registerProducer r.fault r.now p with ⟨db', f | _⟩
    · simpa only [hr] using hreg
    · simpa only [hr] using hreg

lemma enrollRecord_frame (r : EnrollReads) (prod : Res Producer) (db : Db) :
    ∃ producer, (enrollRecord r prod db).1 = { db with producer := producer } := by
  cases prod with
  | error => exact ⟨_, rfl⟩
  | ok p =>
    have hreg := db.registerProducer_frame r.fault r.now p
    unfold enrollRecord
    rcases hr : db.registerProducer r.fault r.now p with ⟨db', f | _⟩
    · simpa only [hr] using hreg
    · simpa only [hr] using hreg

end Core

end Stele
