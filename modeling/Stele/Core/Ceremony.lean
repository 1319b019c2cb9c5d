import Stele.Core.EnrollmentRequired

/-!
# The calls of the registry in sections

`IssueEnrollment`, `BeginEnrollment` and `ConfirmEnrollment` take the mutex of the signer, the mutex
of the waiting challenges and a transaction of the store one after the other, and so do other calls
in between. A machine interleaves the sections of these calls, of `RegisterProducer` and of
`RevokeProducer` with the threads of `Stele.Core.Machine` and the janitor.
-/

namespace Stele.Core.Ceremony

open Lib List AList

/-! ## Sections -/

inductive Source
  | request
  | issue (quantumPublicKeyAt : Nat → Bytes)
  | challenge (id : Bytes) (checked : Int)

namespace Source

def signFailed : Source → String
  | challenge _ _ => "enrollment: operator sign: %w"
  | _ => "enrollment classical sign: %w"

def drift : Source → Nat → Nat → Fault
  | challenge _ _, epoch, expected =>
    errorf "enrollment: operator epoch drift (signed %d, expected %d)" [.nat epoch, .nat expected]
  | _, epoch, expected =>
    errorf "enrollment signed by epoch %d, expected active %d" [.nat epoch, .nat expected]

def quantumFailed : Source → String
  | challenge _ _ => "enrollment: operator quantum sign: %w"
  | _ => "enrollment quantum sign: %w"

end Source

inductive Stage
  | issue (req : EnrollmentRequest)
  | begin (req : EnrollmentRequest)
  /-- `BeginEnrollment` before `pendingMu.Lock()`. -/
  | keep (challengeID : Bytes) (prod : Producer)
  | confirm (challengeID classicalSig quantumSig : Bytes)
  | answer (challengeID : Bytes) (p : Pending) (classicalSig quantumSig : Bytes)
  | sign (src : Source) (prod : Producer)
  | hybrid (src : Source) (prod : Producer)
  | quantumSign (src : Source) (prod : Producer)
  | quantumKey (src : Source) (prod : Producer) (qsig : Bytes)
  | register (src : Source) (prod : Producer)
  | revoke (id reason : Bytes)
  | revoked (id : Bytes)
  | ended

inductive Answer
  | nothing
  | producer (p : Producer)
  | challenge (challengeID challengeBytes : Bytes) (expiresAt : Int)

inductive Next
  | go (stage : Stage)
  | done (res : Res Answer)

structure Shared where
  db : Db
  pending : AList fun _ : Bytes => Pending

def Next.ofRes {α : Type} (res : Res α) (k : α → Stage) : Next :=
  match res with
  | .error f => .done (.error f)
  | .ok a => .go (k a)

def Source.answer : Source → Producer → Answer
  | .request, _ => .nothing
  | _, prod => .producer prod

def quantumSigned (prod : Producer) (key qsig : Bytes) : Producer :=
  { prod with quantumOperatorPubKey := key, quantumSignature := qsig }

def Stage.resume (C : Crypto) (r : EnrollReads) (sh : Shared) : Stage → Shared × Next
  | .issue req =>
    (sh, .ofRes req.check fun _ =>
      .sign (.issue r.quantumPublicKeyAt) (req.producer r.now r.activeEpoch []))
  | .begin req =>
    let drawn : Res (Bytes × Producer) := do
      req.check
      let idRaw ← wrapErr "enrollment: nonce: %w" [] (r.idRaw.mapError .err)
      let nonce ← wrapErr "enrollment: nonce: %w" [] (r.nonce.mapError .err)
      let prod := req.producer r.now r.activeEpoch nonce
      ensure (prod.challengeBytes ≠ []) (errorf "enrollment: failed to build challenge bytes" [])
      return (hex idRaw, prod)
    (sh, .ofRes drawn fun d => .keep d.1 d.2)
  | .keep challengeID prod =>
    let expiresAt := r.later + defaultChallengeTTL
    ({ sh with pending := sh.pending.insert challengeID ⟨prod, expiresAt⟩ },
      .done (.ok (.challenge challengeID prod.challengeBytes expiresAt)))
  | .confirm challengeID classicalSig quantumSig =>
    match sh.pending.lookup challengeID with
    | none => (sh, .done (.error (errorf "enrollment: unknown or expired challenge" [])))
    | some p =>
      ({ sh with pending := sh.pending.erase challengeID },
        .go (.answer challengeID p classicalSig quantumSig))
  | .answer challengeID p classicalSig quantumSig =>
    let consented : Res Producer := do
      ensure (r.now ≤ p.expiresAt) (errorf "enrollment: challenge expired" [])
      let prod ← answered p.prod classicalSig quantumSig
      wrapErr "enrollment: producer consent: %w" [] (prod.verifyConsent C)
      return prod
    (sh, .ofRes consented (.sign (.challenge challengeID r.now)))
  | .sign src prod =>
    let signed : Res Bytes := do
      let (epoch, sig) ← wrapErr src.signFailed [] ((r.sign prod.canonicalEnrollment).mapError .err)
      ensure (epoch = prod.operatorEpoch) (src.drift epoch prod.operatorEpoch)
      return sig
    (sh, .ofRes signed fun sig => .hybrid src { prod with signature := sig })
  | .hybrid src prod =>
    if r.hybrid = true ∧ prod.quantumPublicKey ≠ [] then (sh, .go (.quantumSign src prod))
    else (sh, .go (.register src prod))
  | .quantumSign src prod =>
    (sh, .ofRes (wrapErr src.quantumFailed []
      ((r.quantumSign prod.canonicalEnrollment).mapError .err)) fun qsig =>
        match src with
        -- this call has copied the chain already
        | .issue keyAt => .register src (quantumSigned prod (keyAt prod.operatorEpoch) qsig)
        | _ => .quantumKey src prod qsig)
  | .quantumKey src prod qsig =>
    (sh, .go (.register src (quantumSigned prod (r.quantumPublicKeyAt prod.operatorEpoch) qsig)))
  | .register src prod =>
    match sh.db.registerProducer r.fault r.now prod with
    | (db, .error f) => ({ sh with db := db }, .done (.error f))
    | (db, .ok ()) => ({ sh with db := db }, .done (.ok (src.answer prod)))
  | .revoke id reason =>
    match sh.db.revokeProducer r.fault r.now id reason with
    | (db, .error f) => ({ sh with db := db }, .done (.error f))
    | (db, .ok ()) => ({ sh with db := db }, .go (.revoked id))
  | .revoked _ => (sh, .done (.ok .nothing))
  | .ended => (sh, .go .ended)

def Stage.resumeAll (C : Crypto) (r : EnrollReads) : Nat → Shared → Stage → Shared × Res Answer
  | 0, sh, _ => (sh, .error (errorf "unfinished" []))
  | n + 1, sh, stage =>
    match stage.resume C r sh with
    | (sh', .done res) => (sh', res)
    | (sh', .go next) => next.resumeAll C r n sh'

section
variable {C : Crypto} {r : EnrollReads} {db : Db} {pending : AList fun _ : Bytes => Pending}

def enrolled (pending : AList fun _ : Bytes => Pending) (out : Db × Res Producer) :
    Shared × Res Answer :=
  (⟨out.1, pending⟩, out.2.map .producer)

lemma hybrid_eq {src : Source} (hsrc : ∀ prod, src.answer prod = .producer prod)
    (hkeys : ∀ keyAt, src = .issue keyAt → keyAt = r.quantumPublicKeyAt) (prod : Producer)
    (n : Nat) :
    (Stage.hybrid src prod).resumeAll C r (n + 4) ⟨db, pending⟩ =
      enrolled pending (enrollRecord r (quantumEnroll r src.quantumFailed prod) db) := by
  have hregister : ∀ (m : Nat) (prod : Producer),
      (Stage.register src prod).resumeAll C r (m + 1) ⟨db, pending⟩ =
        enrolled pending (enrollRecord r (.ok prod) db) := by
    intro m prod
    simp only [Stage.resumeAll, Stage.resume, enrollRecord, enrolled]
    rcases db.registerProducer r.fault r.now prod with ⟨db', f | _⟩
    · rfl
    · simp only [hsrc]
      rfl
  by_cases hhyb : r.hybrid = true ∧ prod.quantumPublicKey ≠ []
  · simp only [Stage.resumeAll, Stage.resume, quantumEnroll, if_pos hhyb]
    cases hqsig : r.quantumSign prod.canonicalEnrollment with
    | error => rfl
    | ok =>
      cases src with
      | issue keyAt =>
        have hkey := hkeys keyAt rfl
        subst hkey
        exact hregister (n + 1) _
      | request => exact hregister n _
      | challenge => exact hregister n _
  · have hq : quantumEnroll r src.quantumFailed prod = .ok prod := by
      rw [quantumEnroll, if_neg hhyb]
    rw [hq, Stage.resumeAll]
    simp only [Stage.resume, if_neg hhyb]
    exact hregister (n + 2) prod

lemma sign_eq {src : Source} (hsrc : ∀ prod, src.answer prod = .producer prod)
    (hkeys : ∀ keyAt, src = .issue keyAt → keyAt = r.quantumPublicKeyAt) (prod : Producer)
    (n : Nat) :
    (Stage.sign src prod).resumeAll C r (n + 5) ⟨db, pending⟩ =
      enrolled pending (enrollRecord r (do
        let (epoch, sig) ← wrapErr src.signFailed []
          ((r.sign prod.canonicalEnrollment).mapError .err)
        ensure (epoch = prod.operatorEpoch) (src.drift epoch prod.operatorEpoch)
        quantumEnroll r src.quantumFailed { prod with signature := sig }) db) := by
  rw [Stage.resumeAll]
  simp only [Stage.resume]
  cases r.sign prod.canonicalEnrollment with
  | error => rfl
  | ok out =>
    obtain ⟨epoch, sig⟩ := out
    by_cases hepoch : epoch = prod.operatorEpoch
    · have hok : ∀ f, ensure (epoch = prod.operatorEpoch) f = .ok () := fun f => if_pos hepoch
      simp only [wrapErr, Except.mapError, ok_bind, hok]
      exact hybrid_eq hsrc hkeys _ n
    · have herr : ∀ f, ensure (epoch = prod.operatorEpoch) f = .error f := fun f => if_neg hepoch
      simp only [wrapErr, Except.mapError, ok_bind, herr]
      rfl

lemma issue_eq (req : EnrollmentRequest) :
    (Stage.issue req).resumeAll C r 6 ⟨db, pending⟩ =
      enrolled pending (enrollRecord r (issueRecord r req) db) := by
  rw [Stage.resumeAll]
  simp only [Stage.resume, issueRecord]
  cases req.check with
  | error => rfl
  | ok =>
    refine sign_eq (fun _ => rfl) (fun keyAt heq => ?_) _ 0
    cases heq
    rfl

lemma begin_eq (req : EnrollmentRequest) :
    (Stage.begin req).resumeAll C r 2 ⟨db, pending⟩ =
      match beginEnrollment r req with
      | .error f => (⟨db, pending⟩, .error f)
      | .ok (id, challenge, p) =>
        (⟨db, pending.insert id p⟩, .ok (.challenge id challenge p.expiresAt)) := by
  rw [Stage.resumeAll]
  simp only [Stage.resume, beginEnrollment]
  cases req.check with
  | error => rfl
  | ok =>
    cases r.idRaw with
    | error => rfl
    | ok =>
      cases r.nonce with
      | error => rfl
      | ok nonce =>
        by_cases hbytes : (req.producer r.now r.activeEpoch nonce).challengeBytes ≠ []
        · have hok : ∀ f, ensure ((req.producer r.now r.activeEpoch nonce).challengeBytes ≠ []) f =
              .ok () := fun f => if_pos hbytes
          simp only [wrapErr, Except.mapError, ok_bind, hok]
          rfl
        · have herr : ∀ f, ensure ((req.producer r.now r.activeEpoch nonce).challengeBytes ≠ []) f =
              .error f := fun f => if_neg hbytes
          simp only [wrapErr, Except.mapError, ok_bind, herr]
          rfl

lemma confirm_eq (challengeID classicalSig quantumSig : Bytes) :
    (Stage.confirm challengeID classicalSig quantumSig).resumeAll C r 7 ⟨db, pending⟩ =
      match pending.lookup challengeID with
      | none => (⟨db, pending⟩, .error (errorf "enrollment: unknown or expired challenge" []))
      | some p => enrolled (pending.erase challengeID)
          (enrollRecord r (confirmRecord C r p classicalSig quantumSig) db) := by
  rw [Stage.resumeAll]
  simp only [Stage.resume]
  cases pending.lookup challengeID with
  | none => rfl
  | some p =>
    show (Stage.answer challengeID p classicalSig quantumSig).resumeAll C r 6 _ = _
    rw [Stage.resumeAll]
    simp only [Stage.resume, confirmRecord]
    by_cases hnow : r.now ≤ p.expiresAt
    · have hok : ∀ f, ensure (r.now ≤ p.expiresAt) f = .ok () := fun f => if_pos hnow
      simp only [hok, ok_bind]
      cases answered p.prod classicalSig quantumSig with
      | error => rfl
      | ok prod =>
        simp only [ok_bind]
        cases prod.verifyConsent C with
        | error => rfl
        | ok =>
          refine sign_eq (fun _ => rfl) (fun keyAt heq => ?_) prod 0
          cases heq
    · have herr : ∀ f, ensure (r.now ≤ p.expiresAt) f = .error f := fun f => if_neg hnow
      simp only [herr]
      rfl

end

/-! ## What a section does -/

inductive Moves (C : Crypto) (r : EnrollReads) (sh : Shared) : Stage → Shared → Next → Prop
  | failed {stage : Stage} (f : Fault) : Moves C r sh stage sh (.done (.error f))
  | issue {req : EnrollmentRequest} :
    Moves C r sh (.issue req) sh
      (.go (.sign (.issue r.quantumPublicKeyAt) (req.producer r.now r.activeEpoch [])))
  | begin {req : EnrollmentRequest} {idRaw nonce : Bytes} (id : r.idRaw = .ok idRaw)
      (nonempty : nonce ≠ []) :
    Moves C r sh (.begin req) sh
      (.go (.keep (hex idRaw) (req.producer r.now r.activeEpoch nonce)))
  | keep {challengeID : Bytes} {prod : Producer} (expiresAt : Int) :
    Moves C r sh (.keep challengeID prod)
      { sh with pending := sh.pending.insert challengeID ⟨prod, expiresAt⟩ }
      (.done (.ok (.challenge challengeID prod.challengeBytes expiresAt)))
  | confirm {challengeID classicalSig quantumSig : Bytes} {p : Pending}
      (lookup : sh.pending.lookup challengeID = some p) :
    Moves C r sh (.confirm challengeID classicalSig quantumSig)
      { sh with pending := sh.pending.erase challengeID }
      (.go (.answer challengeID p classicalSig quantumSig))
  | answer {challengeID classicalSig quantumSig : Bytes} {p : Pending} {prod : Producer}
      (unexpired : r.now ≤ p.expiresAt)
      (answered : answered p.prod classicalSig quantumSig = .ok prod)
      (consent : prod.verifyConsent C = .ok ()) :
    Moves C r sh (.answer challengeID p classicalSig quantumSig) sh
      (.go (.sign (.challenge challengeID r.now) prod))
  | sign {src : Source} {prod : Producer} {sig : Bytes}
      (signed : r.sign prod.canonicalEnrollment = .ok (prod.operatorEpoch, sig)) :
    Moves C r sh (.sign src prod) sh (.go (.hybrid src { prod with signature := sig }))
  | classical {src : Source} {prod : Producer}
      (mode : ¬ (r.hybrid = true ∧ prod.quantumPublicKey ≠ [])) :
    Moves C r sh (.hybrid src prod) sh (.go (.register src prod))
  | hybrid {src : Source} {prod : Producer}
      (mode : r.hybrid = true ∧ prod.quantumPublicKey ≠ []) :
    Moves C r sh (.hybrid src prod) sh (.go (.quantumSign src prod))
  | issueQuantum {keyAt : Nat → Bytes} {prod : Producer} {qsig : Bytes}
      (signed : r.quantumSign prod.canonicalEnrollment = .ok qsig) :
    Moves C r sh (.quantumSign (.issue keyAt) prod) sh
      (.go (.register (.issue keyAt) (quantumSigned prod (keyAt prod.operatorEpoch) qsig)))
  | quantumSign {src : Source} {prod : Producer} {qsig : Bytes}
      (signed : r.quantumSign prod.canonicalEnrollment = .ok qsig) :
    Moves C r sh (.quantumSign src prod) sh (.go (.quantumKey src prod qsig))
  | quantumKey {src : Source} {prod : Producer} {qsig : Bytes} :
    Moves C r sh (.quantumKey src prod qsig) sh
      (.go (.register src (quantumSigned prod (r.quantumPublicKeyAt prod.operatorEpoch) qsig)))
  | register {src : Source} {prod : Producer} {db : Db}
      (commit : sh.db.registerProducer r.fault r.now prod = (db, .ok ())) :
    Moves C r sh (.register src prod) { sh with db := db } (.done (.ok (src.answer prod)))
  | revoke {id reason : Bytes} {db : Db}
      (commit : sh.db.revokeProducer r.fault r.now id reason = (db, .ok ())) :
    Moves C r sh (.revoke id reason) { sh with db := db } (.go (.revoked id))
  | revoked {id : Bytes} : Moves C r sh (.revoked id) sh (.done (.ok .nothing))
  | ended : Moves C r sh .ended sh (.go .ended)

section
variable {C : Crypto} {r : EnrollReads} {sh : Shared}

lemma Moves.ofRes {α : Type} {stage : Stage} {res : Res α} {k : α → Stage}
    (h : ∀ a, res = .ok a → Moves C r sh stage sh (.go (k a))) :
    Moves C r sh stage sh (.ofRes res k) := by
  cases res with
  | error f => exact .failed f
  | ok a => exact h a rfl

lemma mapError_err_ok {α : Type} {x : Except Err α} {a : α} :
    x.mapError Fault.err = .ok a ↔ x = .ok a := by
  cases x <;> simp [Except.mapError]

lemma resume_moves (stage : Stage) :
    Moves C r sh stage (stage.resume C r sh).1 (stage.resume C r sh).2 := by
  cases stage with
  | issue => exact .ofRes fun _ _ => .issue
  | begin =>
    refine .ofRes fun d hd => ?_
    simp only [bind_ok, wrapErr_ok, mapError_err_ok, ensure_ok, exists_const, pure_ok] at hd
    obtain ⟨-, -, idRaw, hid, nonce, -, hbytes, rfl⟩ := hd
    refine .begin hid fun hnil => hbytes ?_
    rw [hnil]
    rfl
  | keep => exact .keep _
  | confirm challengeID =>
    simp only [Stage.resume]
    cases hlook : sh.pending.lookup challengeID with
    | none => exact .failed _
    | some => exact .confirm hlook
  | answer =>
    refine .ofRes fun prod hprod => ?_
    simp only [bind_ok, wrapErr_ok, ensure_ok, exists_const, pure_ok] at hprod
    obtain ⟨hnow, asked, hasked, ⟨⟩, hconsent, rfl⟩ := hprod
    exact .answer hnow hasked hconsent
  | sign =>
    refine .ofRes fun sig hsig => ?_
    simp only [bind_ok, wrapErr_ok, mapError_err_ok, ensure_ok, exists_const, pure_ok] at hsig
    obtain ⟨⟨epoch, sig'⟩, hsign, hepoch, rfl⟩ := hsig
    simp only at hepoch
    subst hepoch
    exact .sign hsign
  | hybrid =>
    simp only [Stage.resume]
    split
    · rename_i hmode
      exact .hybrid hmode
    · rename_i hmode
      exact .classical hmode
  | quantumSign src =>
    refine .ofRes fun qsig hqsig => ?_
    rw [wrapErr_ok, mapError_err_ok] at hqsig
    cases src with
    | issue => exact .issueQuantum hqsig
    | request => exact .quantumSign hqsig
    | challenge => exact .quantumSign hqsig
  | quantumKey => exact .quantumKey
  | register src prod =>
    simp only [Stage.resume]
    rcases hreg : sh.db.registerProducer r.fault r.now prod with ⟨db, f | _⟩
    · obtain rfl := Db.registerProducer_error hreg
      exact .failed f
    · exact .register hreg
  | revoke id reason =>
    simp only [Stage.resume]
    rcases hrev : sh.db.revokeProducer r.fault r.now id reason with ⟨db, f | _⟩
    · obtain rfl := Db.revokeProducer_error hrev
      exact .failed f
    · exact .revoke hrev
  | revoked => exact .revoked
  | ended => exact .ended

end

/-! ## The machine -/

inductive Request
  | registerProducer (p : Producer)
  | issueEnrollment (req : EnrollmentRequest)
  | beginEnrollment (req : EnrollmentRequest)
  | confirmEnrollment (challengeID classicalSig quantumSig : Bytes)
  | revokeProducer (id reason : Bytes)

def Request.start : Request → Stage
  | registerProducer p => .register .request p
  | issueEnrollment req => .issue req
  | beginEnrollment req => .begin req
  | confirmEnrollment challengeID classicalSig quantumSig =>
    .confirm challengeID classicalSig quantumSig
  | revokeProducer id reason => .revoke id reason

/-- A record that a call has written to the registry, and the store right after. -/
structure Write where
  source : Source
  prod : Producer
  db : Db

/-- The operator with the calls of its registry. The last four fields record what has happened; no
step reads them. -/
structure State (R : RangeImpl Bytes) where
  core : Core.State R
  pending : AList fun _ : Bytes => Pending
  calls : List Stage
  drawn : List Bytes
  begun : List (Bytes × Pending)
  writes : List Write
  log : List Entry

variable {R : RangeImpl Bytes}

def init (R : RangeImpl Bytes) : State R := ⟨Core.init R, ∅, [], [], [], [], []⟩

inductive Action
  | callAppend (t : Tid) (env : Option Envelope) (honeypot : Bool)
  | callCheckpoint (t : Tid)
  | thread (t : Tid) (r : Reads)
  | crash
  | start (faults : Nat → ReplayFaults)
  | call (req : Request)
  | resume (i : Nat) (r : EnrollReads)
  | janitor (now : Int)

def Next.stage : Next → Stage
  | go stage => stage
  | done _ => .ended

def Next.drawn : Next → List Bytes
  | go (.keep challengeID _) => [challengeID]
  | _ => []

def Stage.begun : Stage → Next → List (Bytes × Pending)
  | keep challengeID prod, .done (.ok (.challenge _ _ expiresAt)) =>
    [(challengeID, ⟨prod, expiresAt⟩)]
  | _, _ => []

def Stage.written : Stage → Shared × Next → List Write
  | register src prod, (sh, .done (.ok _)) => [⟨src, prod, sh.db⟩]
  | _, _ => []

def committed (r : Reads) (db : Db) : Pc → List Entry
  | .appendEntry e =>
    match (db.appendEntry r.fault e).2 with
    | .ok () => [e]
    | .error _ => []
  | _ => []

section
variable (C : Crypto) (opts : Options)

def State.after (s : State R) (i : Nat) (stage : Stage) (out : Shared × Next) : State R :=
  { s with
    core.db := out.1.db
    pending := out.1.pending
    calls := s.calls.set i out.2.stage
    drawn := s.drawn ++ out.2.drawn
    begun := s.begun ++ stage.begun out.2
    writes := s.writes ++ stage.written out }

def State.step (s : State R) : Action → State R
  | .callAppend t env honeypot =>
    { s with core := Core.step C opts s.core (.callAppend t env honeypot) }
  | .callCheckpoint t => { s with core := Core.step C opts s.core (.callCheckpoint t) }
  | .thread t r =>
    match s.core.proc with
    | none => s
    | some p =>
      { s with
        core := Core.step C opts s.core (.thread t r)
        log := s.log ++ committed r s.core.db (p.pc t) }
  | .crash => { s with core := Core.step C opts s.core .crash, pending := ∅, calls := [] }
  | .start faults => { s with core := Core.step C opts s.core (.start faults) }
  | .call req =>
    match s.core.proc with
    | none => s
    | some _ => { s with calls := s.calls ++ [req.start] }
  | .resume i r =>
    match s.calls[i]? with
    | none => s
    | some stage => s.after i stage (stage.resume C r ⟨s.core.db, s.pending⟩)
  | .janitor now => { s with pending := Enrollment.unexpired now s.pending }

end

/-! ## Where a challenge is -/

def Source.challengeID : Source → Option Bytes
  | challenge id _ => some id
  | _ => none

def Stage.challengeID : Stage → Option Bytes
  | keep challengeID _ => some challengeID
  | answer challengeID _ _ _ => some challengeID
  | sign src _ => src.challengeID
  | hybrid src _ => src.challengeID
  | quantumSign src _ => src.challengeID
  | quantumKey src _ _ => src.challengeID
  | register src _ => src.challengeID
  | _ => none

def Stage.drawnID : Stage → Option Bytes
  | keep challengeID _ => some challengeID
  | _ => none

/-- In how many places a challenge is: with calls, among the waiting ones, and in the registry. -/
def State.copies (s : State R) (ch : Bytes) : Nat :=
  (s.calls.map Stage.challengeID).count (some ch) + (s.pending.lookup ch).isSome.toNat +
    (s.writes.map fun w => w.source.challengeID).count (some ch)

def State.begins (s : State R) (ch : Bytes) : Nat :=
  (s.calls.map Stage.drawnID).count (some ch) + (s.begun.map Prod.fst).count ch

def Stage.draws : Stage → EnrollReads → Option Bytes
  | begin _, r => r.idRaw.toOption.map hex
  | _, _ => none

def Fresh (s : State R) : Action → Prop
  | .resume i r => ∀ stage, s.calls[i]? = some stage → ∀ id, stage.draws r = some id → id ∉ s.drawn
  | _ => True

instance (s : State R) (a : Action) : Decidable (Fresh s a) := by
  unfold Fresh
  split <;> infer_instance

section
variable {C : Crypto} {opts : Options} {s : State R}

lemma count_map_set {α β : Type} [BEq β] [LawfulBEq β] (f : α → β) {l : List α} {i : Nat}
    {a b : α} (h : l[i]? = some a) (x : β) :
    ((l.set i b).map f).count x + [f a].count x = (l.map f).count x + [f b].count x := by
  obtain ⟨hi, rfl⟩ := List.getElem?_eq_some_iff.mp h
  have hperm : ((l.set i b).map f).Perm (f b :: (l.eraseIdx i).map f) :=
    (List.set_perm_cons_eraseIdx hi b).map f
  have hperm' : (l.map f).Perm (f l[i] :: (l.eraseIdx i).map f) :=
    (getElem_cons_eraseIdx_perm hi).symm.map f
  simp only [hperm.count_eq, hperm'.count_eq, count_cons, count_nil]
  omega

inductive Passes (p : AList fun _ : Bytes => Pending) : Option Bytes → Option Bytes →
    (AList fun _ : Bytes => Pending) → (drawn : List Bytes) → (written : List Write) → Prop
  | stays (id : Option Bytes) : Passes p id id p [] []
  | dropped (id : Option Bytes) : Passes p id none p [] []
  | drawn (id : Bytes) : Passes p none (some id) p [id] []
  | waits (id : Bytes) (v : Pending) : Passes p (some id) none (p.insert id v) [] []
  | taken (id : Bytes) (waiting : id ∈ p) : Passes p none (some id) (p.erase id) [] []
  | written (w : Write) : Passes p w.source.challengeID none p [] [w]

lemma Moves.passes {r : EnrollReads} {sh sh' : Shared} {stage : Stage} {next : Next}
    (h : Moves C r sh stage sh' next) :
    Passes sh.pending stage.challengeID next.stage.challengeID sh'.pending next.drawn
      (stage.written (sh', next)) := by
  cases h with
  | failed f =>
    have hwritten : stage.written (sh, .done (.error f)) = [] := by cases stage <;> rfl
    rw [hwritten]
    exact .dropped _
  | begin => exact .drawn _
  | keep => exact .waits _ _
  | confirm hlook => exact .taken _ (lookup_isSome.mp (by simp [hlook]))
  | register => exact .written ⟨_, _, _⟩
  | _ => exact .stays _

lemma Passes.count {p p' : AList fun _ : Bytes => Pending} {id id' : Option Bytes}
    {drawn : List Bytes} {written : List Write} (h : Passes p id id' p' drawn written)
    (ch : Bytes) :
    [id'].count (some ch) + (p'.lookup ch).isSome.toNat +
        (written.map fun w => w.source.challengeID).count (some ch) ≤
      [id].count (some ch) + (p.lookup ch).isSome.toNat + drawn.count ch := by
  cases h with
  | stays => simp
  | dropped => simp
  | drawn id =>
    by_cases hid : id = ch
    · simp [hid, Nat.add_comm]
    · simp [hid]
  | waits id =>
    by_cases hid : ch = id
    · subst hid
      simp
    · simp [lookup_insert_ne hid]
  | taken id hmem =>
    by_cases hid : ch = id
    · subst hid
      have hsome : (p.lookup ch).isSome = true := lookup_isSome.mpr hmem
      simp [hsome]
    · simp [lookup_erase_ne hid, Ne.symm hid]
  | written => simp [Nat.add_comm]

/-- **A section leaves a challenge in as many places as before**, or in one less; a begin puts the
one that it has drawn in one more. -/
theorem copies_after {i : Nat} {stage : Stage} (hcall : s.calls[i]? = some stage)
    {r : EnrollReads} {sh : Shared} {next : Next}
    (h : Moves C r ⟨s.core.db, s.pending⟩ stage sh next) (ch : Bytes) :
    (s.after i stage (sh, next)).copies ch ≤ s.copies ch + next.drawn.count ch := by
  have hset := @count_map_set _ _ _ _ Stage.challengeID _ _ _ next.stage hcall (some ch)
  have hpass := h.passes.count ch
  simp only [State.after, State.copies, map_append, count_append] at hpass ⊢
  omega

lemma begins_after {i : Nat} {stage : Stage} (hcall : s.calls[i]? = some stage)
    {r : EnrollReads} {sh : Shared} {next : Next}
    (h : Moves C r ⟨s.core.db, s.pending⟩ stage sh next) (ch : Bytes) :
    (s.after i stage (sh, next)).begins ch ≤ s.begins ch + next.drawn.count ch := by
  have hset := @count_map_set _ _ _ _ Stage.drawnID _ _ _ next.stage hcall (some ch)
  have hmoved : [next.stage.drawnID].count (some ch) +
      ((stage.begun next).map Prod.fst).count ch ≤
      [stage.drawnID].count (some ch) + next.drawn.count ch := by
    cases h with
    | failed f =>
      have hbegun : stage.begun (.done (.error f)) = [] := by cases stage <;> rfl
      rw [hbegun]
      exact Nat.zero_le _
    | @begin _ idRaw =>
      by_cases hid : hex idRaw = ch
      · simp [Next.stage, Stage.drawnID, Stage.begun, Next.drawn, hid]
      · simp [Next.stage, Stage.drawnID, Stage.begun, Next.drawn, hid]
    | @keep challengeID =>
      by_cases hid : challengeID = ch
      · simp [Next.stage, Stage.drawnID, Stage.begun, Next.drawn, hid]
      · simp [Next.stage, Stage.drawnID, Stage.begun, Next.drawn, hid]
    | _ => exact Nat.zero_le _
  simp only [State.after, State.begins, map_append, count_append]
  omega

end

/-! ## What a challenge binds -/

def terms (p : Producer) : Producer :=
  { p with
    signature := []
    quantumOperatorPubKey := []
    quantumSignature := []
    challengeSignature := []
    quantumChallengeSignature := [] }

def Asked (p : Producer) : Prop :=
  ∃ (req : EnrollmentRequest) (now : Int) (epoch : Nat) (nonce : Bytes),
    p = req.producer now epoch nonce ∧ nonce ≠ []

section
variable (C : Crypto) (begun : List (Bytes × Pending))

def Source.Backs (prod : Producer) : Source → Prop
  | challenge id checked => ∃ p, (id, p) ∈ begun ∧ checked ≤ p.expiresAt ∧ terms prod = p.prod ∧
      prod.verifyConsent C = .ok ()
  | _ => True

def Stage.Sound : Stage → Prop
  | keep _ prod => Asked prod
  | answer id p _ _ => (id, p) ∈ begun
  | sign src prod => src.Backs C begun prod
  | hybrid src prod => src.Backs C begun prod
  | quantumSign src prod => src.Backs C begun prod
  | quantumKey src prod _ => src.Backs C begun prod
  | register src prod => src.Backs C begun prod
  | _ => True

end

def Write.Stored (w : Write) : Prop :=
  ∃ registeredAt, w.db.producer.lookup w.prod.id =
    some (some (Producer.toJson { w.prod with registeredAt := registeredAt }))

lemma Write.Stored.of_commit {src : Source} {prod : Producer} {db db' : Db} {fault : Option Err}
    {now : Int} (h : db.registerProducer fault now prod = (db', .ok ())) :
    Write.Stored ⟨src, prod, db'⟩ := by
  obtain ⟨registeredAt, rfl⟩ := Db.registerProducer_ok h
  exact ⟨registeredAt, lookup_insert _⟩

lemma Write.Stored.getProducer {w : Write} (h : w.Stored) (hutf8 : w.prod.TermsUtf8) :
    ∃ registeredAt, w.db.getProducer none w.prod.id = .ok { w.prod with
      registeredAt := registeredAt
      description := coerce w.prod.description
      revokeReason := coerce w.prod.revokeReason } := by
  obtain ⟨registeredAt, hlook⟩ := h
  refine ⟨registeredAt, ?_⟩
  have hread := @Producer.ofJson_toJson { w.prod with registeredAt := registeredAt } hutf8
  simp only [Db.getProducer, Db.view, hlook, Doc.decode, hread]

section
variable {C : Crypto} {opts : Options} {begun : List (Bytes × Pending)}

lemma Source.Backs.mono {src : Source} {prod : Producer} (h : src.Backs C begun prod)
    (more : List (Bytes × Pending)) : src.Backs C (begun ++ more) prod := by
  cases src with
  | request => trivial
  | issue => trivial
  | challenge =>
    obtain ⟨p, hp, hrest⟩ := h
    exact ⟨p, mem_append_left _ hp, hrest⟩

lemma Stage.Sound.mono {stage : Stage} (h : stage.Sound C begun)
    (more : List (Bytes × Pending)) : stage.Sound C (begun ++ more) := by
  cases stage with
  | keep => exact h
  | answer => exact mem_append_left _ h
  | sign => exact Source.Backs.mono h more
  | hybrid => exact Source.Backs.mono h more
  | quantumSign => exact Source.Backs.mono h more
  | quantumKey => exact Source.Backs.mono h more
  | register => exact Source.Backs.mono h more
  | _ => trivial

lemma Source.Backs.signed {src : Source} {prod : Producer} (h : src.Backs C begun prod)
    (sig key qsig : Bytes) :
    src.Backs C begun
      { prod with signature := sig, quantumOperatorPubKey := key, quantumSignature := qsig } := by
  cases src with
  | request => trivial
  | issue => trivial
  | challenge => exact h

lemma Moves.sound {r : EnrollReads} {sh sh' : Shared} {stage : Stage} {next : Next}
    (h : Moves C r sh stage sh' next) (hstage : stage.Sound C begun)
    (hpending : ∀ id p, sh.pending.lookup id = some p → (id, p) ∈ begun)
    (hasked : ∀ b ∈ begun, Asked b.2.prod) : next.stage.Sound C begun := by
  cases h with
  | begin hid hne => exact ⟨_, _, _, _, rfl, hne⟩
  | confirm hlook => exact hpending _ _ hlook
  | @answer id c q p prod hnow hans hconsent =>
    obtain ⟨qsig, rfl⟩ := answered_ok hans
    obtain ⟨req, now, epoch, nonce, hprod, -⟩ := hasked _ hstage
    have hterms : terms { p.prod with
        challengeSignature := c, quantumChallengeSignature := qsig } = p.prod := by
      simp only at hprod
      rw [hprod]
      rfl
    exact ⟨p, hstage, hnow, hterms, hconsent⟩
  | sign => exact Source.Backs.signed hstage _ _ _
  | classical => exact hstage
  | hybrid => exact hstage
  | quantumSign => exact hstage
  | quantumKey => exact Source.Backs.signed hstage _ _ _
  | _ => trivial

variable (C) in
/-- The invariant: each challenge that was drawn is in one place at most, and everything that
answers one has its terms. -/
structure Inv (s : State R) : Prop where
  drawn : s.drawn.Nodup
  copies : ∀ ch, s.copies ch ≤ s.drawn.count ch
  begins : ∀ ch, s.begins ch ≤ s.drawn.count ch
  asked : ∀ b ∈ s.begun, Asked b.2.prod
  pending : ∀ id p, s.pending.lookup id = some p → (id, p) ∈ s.begun
  calls : ∀ stage ∈ s.calls, stage.Sound C s.begun
  writes : ∀ w ∈ s.writes, w.source.Backs C s.begun w.prod ∧ w.Stored

variable {s : State R}

lemma init_inv : Inv C (init R) where
  drawn := nodup_nil
  copies ch := by simp [State.copies, init]
  begins ch := by simp [State.begins, init]
  asked b hb := by simp [init] at hb
  pending id p hp := by simp [init] at hp
  calls stage hstage := by simp [init] at hstage
  writes w hw := by simp [init] at hw

lemma Inv.forget (h : Inv C s) {core : Core.State R} {log : List Entry}
    {pending : AList fun _ : Bytes => Pending} {calls : List Stage}
    (hpending : ∀ id p, pending.lookup id = some p → s.pending.lookup id = some p)
    (hcalls : calls.Sublist s.calls) :
    Inv C { s with core := core, pending := pending, calls := calls, log := log } where
  drawn := h.drawn
  copies ch := by
    have hwaits : (pending.lookup ch).isSome.toNat ≤ (s.pending.lookup ch).isSome.toNat := by
      cases hlook : pending.lookup ch with
      | none => exact Nat.zero_le _
      | some p => simp [hpending ch p hlook]
    have hheld := (hcalls.map Stage.challengeID).count_le (some ch)
    have hold := h.copies ch
    simp only [State.copies] at hold ⊢
    omega
  begins ch := by
    have hheld := (hcalls.map Stage.drawnID).count_le (some ch)
    have hold := h.begins ch
    simp only [State.begins] at hold ⊢
    omega
  asked := h.asked
  pending id p hp := h.pending id p (hpending id p hp)
  calls stage hstage := h.calls stage (hcalls.subset hstage)
  writes := h.writes

lemma Inv.call (h : Inv C s) (req : Request) :
    Inv C { s with calls := s.calls ++ [req.start] } where
  drawn := h.drawn
  copies ch := by
    have hnone : req.start.challengeID = none := by cases req <;> rfl
    have hold := h.copies ch
    simpa [State.copies, hnone] using hold
  begins ch := by
    have hnone : req.start.drawnID = none := by cases req <;> rfl
    have hold := h.begins ch
    simpa [State.begins, hnone] using hold
  asked := h.asked
  pending := h.pending
  calls stage hstage := by
    rcases mem_append.mp hstage with hstage | hstage
    · exact h.calls stage hstage
    · rw [mem_singleton.mp hstage]
      cases req <;> trivial
  writes := h.writes

lemma Moves.recorded {r : EnrollReads} {sh sh' : Shared} {stage : Stage} {next : Next}
    (h : Moves C r sh stage sh' next) (hstage : stage.Sound C begun) :
    (∀ b ∈ stage.begun next, Asked b.2.prod) ∧
    (∀ w ∈ stage.written (sh', next), w.source.Backs C begun w.prod ∧ w.Stored) ∧
    ∀ id p, sh'.pending.lookup id = some p →
      sh.pending.lookup id = some p ∨ (id, p) ∈ stage.begun next := by
  cases h with
  | failed =>
    cases stage <;>
      exact ⟨fun b hb => (by cases hb), fun w hw => (by cases hw), fun id p hp => .inl hp⟩
  | @keep id prod expiresAt =>
    refine ⟨fun b hb => ?_, fun w hw => (by cases hw), fun id' p hp => ?_⟩
    · rw [mem_singleton.mp hb]
      exact hstage
    · by_cases hid : id' = id
      · subst hid
        simp only [lookup_insert, Option.some.injEq] at hp
        exact .inr (mem_singleton.mpr (by rw [hp]))
      · rw [lookup_insert_ne hid] at hp
        exact .inl hp
  | @confirm id =>
    refine ⟨fun b hb => (by cases hb), fun w hw => (by cases hw), fun id' p hp => .inl ?_⟩
    by_cases hid : id' = id
    · subst hid
      simp at hp
    · rwa [lookup_erase_ne hid] at hp
  | register hreg =>
    refine ⟨fun b hb => (by cases hb), fun w hw => ?_, fun id' p hp => .inl hp⟩
    rw [mem_singleton.mp hw]
    exact ⟨hstage, .of_commit hreg⟩
  | _ => exact ⟨fun b hb => (by cases hb), fun w hw => (by cases hw), fun id p hp => .inl hp⟩

/-- **A section keeps the invariant**, when the challenge ID that it draws is new. -/
theorem Inv.after (h : Inv C s) {i : Nat} {stage : Stage} (hcall : s.calls[i]? = some stage)
    {r : EnrollReads} {sh : Shared} {next : Next}
    (hmoves : Moves C r ⟨s.core.db, s.pending⟩ stage sh next)
    (hfresh : ∀ id, stage.draws r = some id → id ∉ s.drawn) :
    Inv C (s.after i stage (sh, next)) := by
  have hstage := h.calls stage (mem_of_getElem? hcall)
  obtain ⟨hasked, hwritten, hpending⟩ := hmoves.recorded hstage
  refine ⟨?_, fun ch => ?_, fun ch => ?_, fun b hb => ?_, fun id p hp => ?_, fun st hst => ?_,
    fun w hw => ?_⟩
  · show (s.drawn ++ next.drawn).Nodup
    cases hmoves with
    | begin hid =>
      have hnew := hfresh _ (by rw [Stage.draws, hid]; rfl)
      refine nodup_append'.mpr ⟨h.drawn, nodup_singleton _, ?_⟩
      intro x hx hx'
      exact hnew (mem_singleton.mp hx' ▸ hx)
    | _ =>
      simp only [Next.drawn, append_nil]
      exact h.drawn
  · have hcopies := copies_after hcall hmoves ch
    have hold := h.copies ch
    show _ ≤ (s.drawn ++ next.drawn).count ch
    rw [count_append]
    omega
  · have hbegins := begins_after hcall hmoves ch
    have hold := h.begins ch
    show _ ≤ (s.drawn ++ next.drawn).count ch
    rw [count_append]
    omega
  · rcases mem_append.mp hb with hb | hb
    · exact h.asked b hb
    · exact hasked b hb
  · rcases hpending id p hp with hold | hnew
    · exact mem_append_left _ (h.pending id p hold)
    · exact mem_append_right _ hnew
  · rcases mem_or_eq_of_mem_set hst with hold | rfl
    · exact (h.calls st hold).mono _
    · exact (hmoves.sound hstage h.pending h.asked).mono _
  · rcases mem_append.mp hw with hw | hw
    · exact ⟨(h.writes w hw).1.mono _, (h.writes w hw).2⟩
    · exact ⟨(hwritten w hw).1.mono _, (hwritten w hw).2⟩

lemma Inv.step (h : Inv C s) {a : Action} (ha : Fresh s a) : Inv C (s.step C opts a) := by
  have hsame : ∀ (core : Core.State R) (log : List Entry),
      Inv C { s with core := core, log := log } :=
    fun core log => h.forget (fun _ _ hp => hp) (List.Sublist.refl _)
  cases a with
  | callAppend => exact hsame _ _
  | callCheckpoint => exact hsame _ _
  | thread =>
    simp only [State.step]
    cases s.core.proc with
    | none => exact h
    | some => exact hsame _ _
  | crash => exact h.forget (fun id p hp => by simp at hp) (nil_sublist _)
  | start => exact hsame _ _
  | call req =>
    simp only [State.step]
    cases s.core.proc with
    | none => exact h
    | some => exact h.call req
  | resume i =>
    simp only [State.step]
    cases hcall : s.calls[i]? with
    | none => exact h
    | some stage => exact h.after hcall (resume_moves stage) (ha stage hcall)
  | janitor =>
    refine h.forget (fun id p hp => ?_) (List.Sublist.refl _)
    exact mem_lookup_iff.mpr (mem_of_mem_filter (mem_lookup_iff.mp hp))

end

/-! ## The result -/

/-- **Challenges are single use and bind the terms.** When the challenge IDs that are drawn are new,
then in every interleaving each challenge has led to one write at most. The answer to it was checked
before it expired, the record has the terms that were fixed at its begin, the keys in these terms
have signed them and the nonce, and so `GetProducer` reads them. -/
theorem challenges_single_use (C : Crypto) (R : RangeImpl Bytes) (opts : Options)
    {as : List Action} (has : Along (State.step C opts) Fresh (init R) as) :
    let s := run (State.step C opts) (init R) as
    (∀ ch, (s.writes.map fun w => w.source.challengeID).count (some ch) ≤ 1) ∧
    (s.begun.map Prod.fst).Nodup ∧
    ∀ w ∈ s.writes, ∀ ch checked, w.source = .challenge ch checked →
      ∃ (req : EnrollmentRequest) (now : Int) (epoch : Nat) (nonce : Bytes) (expiresAt : Int),
        let asked := req.producer now epoch nonce
        (ch, ⟨asked, expiresAt⟩) ∈ s.begun ∧ checked ≤ expiresAt ∧ terms w.prod = asked ∧
        w.prod.verifyConsent C = .ok () ∧ nonce ≠ [] ∧
        C.EdValid req.publicKey asked.challengeBytes w.prod.challengeSignature ∧
        (req.quantumPublicKey ≠ [] →
          C.DilValid req.quantumPublicKey asked.challengeBytes w.prod.quantumChallengeSignature) ∧
        (asked.TermsUtf8 → ∃ stored, w.db.getProducer none req.id = .ok stored ∧
          terms { stored with description := req.description, registeredAt := now } = asked ∧
          stored.verifyConsent C = .ok ()) := by
  intro s
  have h : Inv C s := along_invariant (fun _ _ h ha => h.step ha) init_inv has
  have hdrawn : ∀ ch, s.drawn.count ch ≤ 1 := nodup_iff_count_le_one.mp h.drawn
  refine ⟨fun ch => ?_, nodup_iff_count_le_one.mpr fun ch => ?_, fun w hw ch checked hsrc => ?_⟩
  · have hcopies := h.copies ch
    have hone := hdrawn ch
    simp only [State.copies] at hcopies
    omega
  · have hbegins := h.begins ch
    have hone := hdrawn ch
    simp only [State.begins] at hbegins
    omega
  · obtain ⟨hbacks, hstored⟩ := h.writes w hw
    rw [hsrc] at hbacks
    obtain ⟨⟨prod, expiresAt⟩, hbegun, hchecked, hterms, hconsent⟩ := hbacks
    obtain ⟨req, now, epoch, nonce, hprod, hne⟩ := h.asked _ hbegun
    simp only at hterms hprod
    subst hprod
    -- The signatures are not among the terms, so the challenge is the same.
    have hkey : w.prod.publicKey = req.publicKey := congrArg Producer.publicKey hterms
    have hqkey : w.prod.quantumPublicKey = req.quantumPublicKey :=
      congrArg Producer.quantumPublicKey hterms
    have hbytes : w.prod.challengeBytes = (req.producer now epoch nonce).challengeBytes := by
      rw [← hterms]
      rfl
    obtain ⟨hed, hdil⟩ := Producer.verifyConsent_ok hconsent
    rw [hkey, hbytes] at hed
    rw [hqkey, hbytes] at hdil
    refine ⟨req, now, epoch, nonce, expiresAt, hbegun, hchecked, hterms, hconsent, hne, hed, hdil,
      fun hutf8 => ?_⟩
    have hid : w.prod.id = req.id := congrArg Producer.id hterms
    have hdesc : w.prod.description = req.description := congrArg Producer.description hterms
    have hreg : w.prod.registeredAt = now := congrArg Producer.registeredAt hterms
    have hreason : w.prod.revokeReason = [] := congrArg Producer.revokeReason hterms
    have hutf8' : w.prod.TermsUtf8 := by
      rw [← hterms] at hutf8
      exact hutf8
    obtain ⟨registeredAt, hget⟩ := hstored.getProducer hutf8'
    rw [hid] at hget
    refine ⟨_, hget, ?_, hconsent⟩
    rw [← hterms]
    simp only [terms, ← hdesc, ← hreg, hreason]
    rfl

def racingConfirms : List Action :=
  let confirm := Request.confirmEnrollment (hex (List.replicate 16 2)) Enrollment.sampleAnswer []
  let resume := fun i => Action.resume i Enrollment.sampleEnrollReads
  [.start fun _ => {}, .call (.beginEnrollment Enrollment.sampleRequest), resume 0, resume 0,
    .call confirm, .call confirm, resume 1, resume 2] ++ List.replicate 4 (resume 1)

theorem challenges_single_use_race :
    let s := run (State.step .sample {}) (init sampleRange) racingConfirms
    (s.writes.map fun w => w.source.challengeID) = [some (hex (List.replicate 16 2))] ∧
    ∀ ch, (s.writes.map fun w => w.source.challengeID).count (some ch) ≤ 1 := by
  have has : Along (State.step .sample {}) Fresh (init sampleRange) racingConfirms := by
    decide +kernel
  exact ⟨by decide +kernel, (challenges_single_use .sample sampleRange {} has).1⟩

end Stele.Core.Ceremony
