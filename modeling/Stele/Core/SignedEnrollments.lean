import Stele.Core.Ceremony
import Stele.Keys.Concurrent

/-!
# Enrollments and the operator's keys

The calls of `Stele.Core.Ceremony` with the forward-secure signer that they read. `IssueEnrollment`
and `ConfirmEnrollment` take the signer's mutex for the chain, the classical signature, the key mode
and the quantum signature, one after the other; the epoch is compared after the classical signature
only. `Rotate` may come in between.
-/

namespace Stele.Core.SignedEnrollments

open Lib Ceremony List AList

/-! ## The machine -/

def copyChain (s : Keys.Signer) : Res Chain :=
  if none ∈ s.chain.certs then .error Chain.nilCert else .ok s.chain

def quantumKeys (ch : Chain) (epoch : Nat) : Bytes :=
  (ch.quantumPublicKeyAt epoch).toOption.getD []

def handled {α : Type} : Res α → Res (Except Err α)
  | .ok a => .ok (.ok a)
  | .error (.err e) => .ok (.error e)
  | .error (.panic what) => .error (.panic what)

def serve (C : Crypto) (s : Keys.Signer) (r : EnrollReads) : Stage → Keys.Calls (Res EnrollReads)
  | .issue _ | .begin _ => return do
    let ch ← copyChain s
    let epoch ← ch.activeEpoch
    return { r with activeEpoch := epoch, quantumPublicKeyAt := quantumKeys ch }
  | .sign _ prod => do
    let signed ← s.sign C prod.canonicalEnrollment
    return do
      let out ← handled signed
      return { r with sign := fun _ => out }
  | .hybrid _ _ => return .ok { r with hybrid := s.hybrid }
  | .quantumSign _ prod => return do
    let out ← handled (s.quantumSign C prod.canonicalEnrollment)
    return { r with quantumSign := fun _ => out }
  | .quantumKey _ _ _ => return do
    let ch ← copyChain s
    return { r with quantumPublicKeyAt := quantumKeys ch }
  | _ => return .ok r

def serveSection (C : Crypto) (s : Keys.Signer) (r : EnrollReads) (sh : Shared) (stage : Stage) :
    Keys.Calls (Shared × Next) := do
  match ← serve C s r stage with
  | .error f => return (sh, .done (.error f))
  | .ok r => return stage.resume C r sh

/-- The operator: its keys, its registry with the waiting challenges, its calls, and what they have
written since the process started. -/
structure State where
  keys : Keys.Sys
  shared : Shared
  calls : List Stage
  writes : List Write

def init : State := ⟨.init, ⟨.empty, ∅⟩, [], []⟩

inductive Event
  | start (origin : Bytes) (store : Keys.KeyStore) (rotator : Option (Option Group))
    (rs : List Keys.Choice)
  | rotate (rs : List Keys.Choice)
  | call (req : Ceremony.Request)
  | resume (i : Nat) (r : EnrollReads) (rs : List Keys.Choice)
  | janitor (now : Int)

section
variable (C : Crypto) (dir : Bytes)

def event (st : State) : Event → State
  | .start origin store rotator rs =>
    { keys := Keys.step C dir st.keys (.start origin store rotator rs)
      shared := { st.shared with pending := ∅ }
      calls := []
      writes := [] }
  | .rotate rs => { st with keys := Keys.step C dir st.keys (.rotate rs) }
  | .call req => { st with calls := st.calls ++ [req.start] }
  | .resume i r rs =>
    match st.keys.signer, st.calls[i]? with
    | some s, some stage =>
      match (serveSection C s r st.shared stage).exec (Keys.perform C) st.keys.world rs with
      | (w, .ret out) =>
        { keys := { st.keys with world := w }
          shared := out.1
          calls := st.calls.set i out.2.stage
          writes := st.writes ++ stage.written out }
      | (w, .ask _ _) => { st with keys := { st.keys with world := w, signer := none } }
    | _, _ => st
  | .janitor now =>
    { st with shared := { st.shared with pending := Enrollment.unexpired now st.shared.pending } }

end

/-! ## What a chain vouches for -/

section
variable (C : Crypto)

/-- The operator's signature of a record is by the key of its epoch. -/
structure Certified (ch : Chain) (prod : Producer) (cert : RotationCert) : Prop where
  listed : ch.certs[prod.operatorEpoch]? = some (some cert)
  signed : C.EdValid cert.publicKey prod.canonicalEnrollment prod.signature

def QuantumOk (cert : RotationCert) (prod : Producer) (qsig : Bytes) : Prop :=
  qsig.length = quantumSignatureSize ∧
    C.DilValid cert.quantumPublicKey prod.canonicalEnrollment qsig

def Bare (prod : Producer) : Prop := prod.quantumSignature = [] ∧ prod.quantumOperatorPubKey = []

def Enrolls (ch : Chain) (prod : Producer) : Prop :=
  ∃ cert, Certified C ch prod cert ∧
    (Bare prod ∨ prod.quantumOperatorPubKey = cert.quantumPublicKey ∧
      QuantumOk C cert prod prod.quantumSignature)

def keyAt (ch : Chain) (epoch : Nat) : Option Bytes := (ch.publicKeyAt epoch).toOption.join

def quantumKeyAt (ch : Chain) (epoch : Nat) : Option Bytes :=
  if quantumKeys ch epoch = [] then none else some (quantumKeys ch epoch)

end

variable {group : Option Group} {quant clocked : Prop} {w : Keys.World}

section
variable {C : Crypto} {ch ch' : Chain} {prod : Producer} {cert : RotationCert}

lemma getElem?_certs_append {l : List (Option RotationCert)} (heq : ch'.certs = ch.certs ++ l)
    {i : Nat} {o : Option RotationCert} (h : ch.certs[i]? = some o) : ch'.certs[i]? = some o := by
  rw [heq, List.getElem?_append_left (List.getElem?_eq_some_iff.mp h).1]
  exact h

lemma Certified.append {l : List (Option RotationCert)} (h : Certified C ch prod cert)
    (heq : ch'.certs = ch.certs ++ l) : Certified C ch' prod cert :=
  ⟨getElem?_certs_append heq h.listed, h.signed⟩

lemma Enrolls.append {l : List (Option RotationCert)} (h : Enrolls C ch prod)
    (heq : ch'.certs = ch.certs ++ l) : Enrolls C ch' prod := by
  obtain ⟨cert, hcert, hquantum⟩ := h
  exact ⟨cert, hcert.append heq, hquantum⟩

lemma lookups (hgood : Keys.Good C group quant clocked w ch) {epoch : Nat}
    (hcert : ch.certs[epoch]? = some (some cert)) :
    ch.publicKeyAt epoch = .ok (some cert.publicKey) ∧
      quantumKeys ch epoch = cert.quantumPublicKey := by
  obtain ⟨genesis, rest, hacc⟩ := hgood.accepted
  rw [hacc.certs, getElem?_map, Option.map_eq_some_iff] at hcert
  obtain ⟨cert', hcert, heq⟩ := hcert
  cases heq
  rw [quantumKeys, hacc.publicKeyAt_eq, hacc.quantumPublicKeyAt_eq, hcert]
  exact ⟨rfl, rfl⟩

lemma Enrolls.verify (h : Enrolls C ch prod) (hgood : Keys.Good C group quant clocked w ch) :
    (∃ key, ch.publicKeyAt prod.operatorEpoch = .ok (some key)) ∧
      prod.verifyEnrollment C (keyAt ch) (quantumKeyAt ch) = .ok () := by
  obtain ⟨cert, hcert, hquantum⟩ := h
  obtain ⟨hkey, hqkey⟩ := lookups hgood hcert.listed
  refine ⟨⟨_, hkey⟩, Producer.verifyEnrollment_ok.mpr ⟨cert.publicKey, ?_, hcert.signed, ?_⟩⟩
  · rw [keyAt, hkey]
    rfl
  · intro hany
    rcases hquantum with ⟨hsig, hop⟩ | ⟨hop, hlen, hvalid⟩
    · simp [hsig, hop] at hany
    · have hne : quantumKeys ch prod.operatorEpoch ≠ [] := by
        rw [hqkey]
        intro hnil
        have hlen := hvalid.1
        rw [hnil] at hlen
        cases hlen
      refine ⟨hlen, ?_, hop ▸ hvalid⟩
      rw [quantumKeyAt, if_neg hne, hqkey, hop]

end

/-! ## Calls that no rotation splits -/

/-- The record goes to the registry with the operator's signature. -/
def Source.enrolls : Source → Bool
  | .request => false
  | .issue _ => true
  | .challenge _ _ => true

def Keyed (ch : Chain) (prod : Producer) (src : Source) : Prop :=
  ∀ keys, src = .issue keys → ∃ cert, ch.certs[prod.operatorEpoch]? = some (some cert) ∧
    keys prod.operatorEpoch = cert.quantumPublicKey

structure Current (s : Keys.Signer) (w : Keys.World) (prod : Producer) : Prop where
  epoch : s.chain.activeEpoch = .ok prod.operatorEpoch
  holds : ∃ active priv, s.active = some active ∧ active.Holds w priv

def InStep (C : Crypto) (s : Keys.Signer) (w : Keys.World) : Stage → Prop
  | .keep _ prod => Bare prod
  | .answer _ p _ _ => Bare p.prod
  | .sign src prod => Bare prod ∧ Keyed s.chain prod src
  | .hybrid src prod => Bare prod ∧ Keyed s.chain prod src ∧
    (∃ cert, Certified C s.chain prod cert) ∧ (prod.quantumPublicKey ≠ [] → Current s w prod)
  | .quantumSign src prod => Keyed s.chain prod src ∧
    (∃ cert, Certified C s.chain prod cert) ∧ Current s w prod
  | .quantumKey _ prod qsig => ∃ cert, Certified C s.chain prod cert ∧ QuantumOk C cert prod qsig
  | .register src prod => Source.enrolls src = true → Enrolls C s.chain prod
  | _ => True

def Serves (C : Crypto) (s : Keys.Signer) (w : Keys.World) (r : EnrollReads) : Stage → Prop
  | .issue _ => s.chain.activeEpoch = .ok r.activeEpoch ∧ r.quantumPublicKeyAt = quantumKeys s.chain
  | .sign _ prod => ∀ epoch sig, r.sign prod.canonicalEnrollment = .ok (epoch, sig) →
    s.chain.activeEpoch = .ok epoch ∧ ∃ active priv, s.active = some active ∧
      active.Holds w priv ∧ sig = C.edSign priv prod.canonicalEnrollment
  | .quantumSign _ prod => ∀ qsig, r.quantumSign prod.canonicalEnrollment = .ok qsig →
    s.quantumSign C prod.canonicalEnrollment = .ok qsig
  | .quantumKey _ _ _ => r.quantumPublicKeyAt = quantumKeys s.chain
  | _ => True

section
variable {C : Crypto} {s : Keys.Signer} {r : EnrollReads} {sh : Shared}

lemma copyChain_ok {ch : Chain} (h : copyChain s = .ok ch) : ch = s.chain := by
  unfold copyChain at h
  split at h
  · cases h
  · exact (Except.ok.inj h).symm

lemma handled_ok {α : Type} {res : Res α} {out : Except Err α} (h : handled res = .ok out)
    {a : α} (ha : out = .ok a) : res = .ok a := by
  subst ha
  match res, h with
  | .ok b, h => exact congrArg _ (Except.ok.inj (Except.ok.inj h))
  | .error (.err e), h => cases h
  | .error (.panic what), h => cases h

/-- **What the signer answers.** It leaves the world as it is. -/
theorem safe_serve (stage : Stage) :
    Prog.Safe (Keys.perform C) (fun _ _ _ => True) (fun _ w1 => w1 = w)
      (fun res w' => w' = w ∧ ∀ r', res = .ok r' → Serves C s w r' stage)
      (serve C s r stage) w := by
  cases stage with
  | issue =>
    refine ⟨rfl, fun r' hr' => ?_⟩
    simp only [bind_ok, pure_ok] at hr'
    obtain ⟨ch, hch, epoch, hepoch, rfl⟩ := hr'
    cases copyChain_ok hch
    exact ⟨hepoch, rfl⟩
  | sign src prod =>
    refine (Keys.safe_signerSign s prod.canonicalEnrollment w).bind (fun _ _ h => h) ?_
    rintro res w1 ⟨rfl, hsigned⟩
    refine ⟨rfl, fun r' hr' => ?_⟩
    simp only [bind_ok, pure_ok] at hr'
    obtain ⟨out, hout, rfl⟩ := hr'
    exact fun epoch sig hsig => hsigned epoch sig (handled_ok hout hsig)
  | quantumSign =>
    refine ⟨rfl, fun r' hr' => ?_⟩
    simp only [bind_ok, pure_ok] at hr'
    obtain ⟨out, hout, rfl⟩ := hr'
    exact fun qsig hqsig => handled_ok hout hqsig
  | quantumKey =>
    refine ⟨rfl, fun r' hr' => ?_⟩
    simp only [bind_ok, pure_ok] at hr'
    obtain ⟨ch, hch, rfl⟩ := hr'
    cases copyChain_ok hch
    rfl
  | _ => exact ⟨rfl, fun _ _ => trivial⟩

/-- **One section of a call**: it fails, or it moves with what the signer answered. -/
theorem safe_serveSection (stage : Stage) :
    Prog.Safe (Keys.perform C) (fun _ _ _ => True) (fun _ w1 => w1 = w)
      (fun out w' => w' = w ∧ ((∃ f, out = (sh, .done (.error f))) ∨
        ∃ r', Serves C s w r' stage ∧ Moves C r' sh stage out.1 out.2))
      (serveSection C s r sh stage) w := by
  refine (safe_serve stage).bind (fun _ _ h => h) ?_
  rintro (f | r') w1 ⟨rfl, hserves⟩
  · exact ⟨rfl, .inl ⟨f, rfl⟩⟩
  · exact ⟨rfl, .inr ⟨r', hserves r' rfl, resume_moves stage⟩⟩

lemma active_cert (hgood : Keys.Good C group quant clocked w s.chain) {epoch : Nat}
    (h : s.chain.activeEpoch = .ok epoch) :
    ∃ last, s.chain.certs.getLast? = some (some last) ∧
      s.chain.certs[epoch]? = some (some last) := by
  obtain ⟨genesis, rest, hacc⟩ := hgood.accepted
  obtain ⟨last, hlast⟩ : ∃ last, s.chain.certs.getLast? = some (some last) := by
    rw [hacc.certs, getLast?_map]
    exact ⟨_, by rw [getLast?_eq_some_getLast (cons_ne_nil _ _)]; rfl⟩
  have hat := Keys.last_at_epoch hacc hlast
  rw [Chain.activeEpoch, hlast, Except.ok.injEq] at h
  exact ⟨last, hlast, h ▸ hat⟩

lemma quantumOk_of_sign (hC : Keys.Correct C)
    (hs : Keys.CoreSigner C group quant clocked w s) {prod : Producer} {cert : RotationCert}
    (hcert : Certified C s.chain prod cert) (hcur : Current s w prod) {qsig : Bytes}
    (h : s.quantumSign C prod.canonicalEnrollment = .ok qsig) : QuantumOk C cert prod qsig := by
  obtain ⟨last, hlast, hat⟩ := active_cert hs.good hcur.epoch
  have hsame : last = cert := by
    have heq := hat.symm.trans hcert.listed
    cases heq
    rfl
  subst hsame
  obtain ⟨active, priv, hactive, hholds⟩ := hcur.holds
  rw [Keys.Signer.quantumSign, hactive] at h
  obtain ⟨hvalid, hlen⟩ := (hs.signs active last hactive hlast).dilValid hC hholds h
  exact ⟨hlen, hvalid⟩

lemma InStep.moves (hC : Keys.Correct C) (hs : Keys.CoreSigner C group quant clocked w s)
    {sh' : Shared} {stage : Stage} {next : Next} (h : InStep C s w stage)
    (hserves : Serves C s w r stage) (hmoves : Moves C r sh stage sh' next)
    (hpending : ∀ ch p, sh.pending.lookup ch = some p → Bare p.prod) :
    InStep C s w next.stage := by
  cases hmoves with
  | issue =>
    obtain ⟨hepoch, hkeys⟩ := hserves
    refine ⟨⟨rfl, rfl⟩, fun keys hsrc => ?_⟩
    cases hsrc
    obtain ⟨last, -, hat⟩ := active_cert hs.good hepoch
    refine ⟨last, hat, ?_⟩
    rw [hkeys]
    exact (lookups hs.good hat).2
  | begin => exact ⟨rfl, rfl⟩
  | confirm hlook => exact hpending _ _ hlook
  | answer hnow hasked =>
    obtain ⟨qsig, rfl⟩ := answered_ok hasked
    exact ⟨h, nofun⟩
  | @sign src prod sig hsign =>
    obtain ⟨hepoch, active, priv, hactive, hholds, rfl⟩ := hserves _ _ hsign
    obtain ⟨last, hlast, hat⟩ := active_cert hs.good hepoch
    have hsigned := (hs.signs active last hactive hlast).edValid hC hholds prod.canonicalEnrollment
    exact ⟨h.1, h.2, ⟨last, hat, hsigned⟩, fun _ => ⟨hepoch, active, priv, hactive, hholds⟩⟩
  | classical =>
    obtain ⟨hbare, -, ⟨cert, hcert⟩, -⟩ := h
    exact fun _ => ⟨cert, hcert, .inl hbare⟩
  | hybrid hmode =>
    obtain ⟨-, hkeyed, hcert, hcur⟩ := h
    exact ⟨hkeyed, hcert, hcur hmode.2⟩
  | @issueQuantum keys prod qsig hsign =>
    obtain ⟨hkeyed, ⟨cert, hcert⟩, hcur⟩ := h
    obtain ⟨cert', hcert', hkey⟩ := hkeyed keys rfl
    have hsame : cert' = cert := by
      have heq := hcert'.symm.trans hcert.listed
      cases heq
      rfl
    subst hsame
    have hq := quantumOk_of_sign hC hs hcert hcur (hserves qsig hsign)
    exact fun _ => ⟨cert', ⟨hcert.listed, hcert.signed⟩, .inr ⟨hkey, hq⟩⟩
  | quantumSign hsign =>
    obtain ⟨-, ⟨cert, hcert⟩, hcur⟩ := h
    exact ⟨cert, hcert, quantumOk_of_sign hC hs hcert hcur (hserves _ hsign)⟩
  | @quantumKey src prod qsig =>
    obtain ⟨cert, hcert, hq⟩ := h
    refine fun _ => ⟨cert, ⟨hcert.listed, hcert.signed⟩, .inr ⟨?_, hq⟩⟩
    show r.quantumPublicKeyAt prod.operatorEpoch = _
    rw [hserves]
    exact (lookups hs.good hcert.listed).2
  | _ => trivial

lemma Moves.bare {sh' : Shared} {stage : Stage} {next : Next}
    (hmoves : Moves C r sh stage sh' next) (h : InStep C s w stage)
    (hpending : ∀ ch p, sh.pending.lookup ch = some p → Bare p.prod) :
    ∀ ch p, sh'.pending.lookup ch = some p → Bare p.prod := by
  cases hmoves with
  | @keep challengeID prod expiresAt =>
    intro ch p hp
    by_cases hch : ch = challengeID
    · subst hch
      simp only [lookup_insert, Option.some.injEq] at hp
      subst hp
      exact h
    · rw [lookup_insert_ne hch] at hp
      exact hpending ch p hp
  | @confirm challengeID =>
    intro ch p hp
    by_cases hch : ch = challengeID
    · subst hch
      simp at hp
    · rw [lookup_erase_ne hch] at hp
      exact hpending ch p hp
  | _ => exact hpending

end

def between : Stage → Bool
  | .hybrid _ prod => prod.quantumPublicKey ≠ []
  | .quantumSign _ _ => true
  | _ => false

/-- The signer runs in one key mode, its rotations are in order, and no call is between its two
signatures when one begins. -/
def Apart (C : Crypto) (dir : Bytes) (store : Keys.KeyStore) (rot : Option (Option Group))
    (st : State) : Event → Prop
  | .start origin store' rotator rs =>
    Keys.Steady C dir store rot st.keys (.start origin store' rotator rs)
  | .rotate rs => Keys.Steady C dir store rot st.keys (.rotate rs) ∧
    ∀ stage ∈ st.calls, between stage = false
  | _ => True

instance (C : Crypto) (dir : Bytes) (store : Keys.KeyStore) (rot : Option (Option Group))
    (st : State) (e : Event) : Decidable (Apart C dir store rot st e) := by
  unfold Apart
  split <;> infer_instance

section
variable {C : Crypto} {dir : Bytes} {store : Keys.KeyStore} {rot : Option (Option Group)}
  {st : State}

lemma Keyed.append {ch ch' : Chain} {l : List (Option RotationCert)} {prod : Producer}
    {src : Source} (h : Keyed ch prod src) (heq : ch'.certs = ch.certs ++ l) :
    Keyed ch' prod src := by
  intro keys hsrc
  obtain ⟨cert, hcert, hkey⟩ := h keys hsrc
  exact ⟨cert, getElem?_certs_append heq hcert, hkey⟩

lemma InStep.rotate {s s' : Keys.Signer} {w w' : Keys.World} {stage : Stage}
    (h : InStep C s w stage) (hbetween : between stage = false)
    {l : List (Option RotationCert)} (heq : s'.chain.certs = s.chain.certs ++ l) :
    InStep C s' w' stage := by
  cases stage with
  | sign => exact ⟨h.1, h.2.append heq⟩
  | hybrid =>
    obtain ⟨hbare, hkeyed, ⟨cert, hcert⟩, -⟩ := h
    refine ⟨hbare, hkeyed.append heq, ⟨cert, hcert.append heq⟩, fun hne => ?_⟩
    simp [between, hne] at hbetween
  | quantumSign => cases hbetween
  | quantumKey =>
    obtain ⟨cert, hcert, hq⟩ := h
    exact ⟨cert, hcert.append heq, hq⟩
  | register => exact fun hsrc => (h hsrc).append heq
  | keep => exact h
  | answer => exact h
  | _ => trivial

variable (C store rot) in
/-- The invariant: the signer is in order, its calls are in step with it, and its chain vouches for
what they have written. -/
structure Inv (st : State) : Prop where
  steady : Keys.SteadyInv C store rot st.keys
  pending : ∀ ch p, st.shared.pending.lookup ch = some p → Bare p.prod
  calls : ∀ s, st.keys.signer = some s → ∀ stage ∈ st.calls, InStep C s st.keys.world stage
  writes : ∀ s, st.keys.signer = some s → ∀ w ∈ st.writes, Source.enrolls w.source = true →
    Enrolls C s.chain w.prod ∧ w.Stored

lemma Moves.enrolls {r : EnrollReads} {sh sh' : Shared} {stage : Stage} {next : Next}
    {s : Keys.Signer} {w : Keys.World} (hmoves : Moves C r sh stage sh' next)
    (h : InStep C s w stage) : ∀ x ∈ stage.written (sh', next), Source.enrolls x.source = true →
      Enrolls C s.chain x.prod ∧ x.Stored := by
  cases hmoves with
  | register hreg =>
    intro x hx hsrc
    rw [mem_singleton.mp hx] at hsrc ⊢
    exact ⟨h hsrc, .of_commit hreg⟩
  | failed => cases stage <;> exact fun x hx => by cases hx
  | _ => exact fun x hx => by cases hx

lemma Inv.resume (hC : Keys.Correct C) (h : Inv C store rot st) (i : Nat) (r : EnrollReads)
    (rs : List Keys.Choice) : Inv C store rot (event C dir st (.resume i r rs)) := by
  cases hsig : st.keys.signer with
  | none =>
    simp only [event, hsig]
    exact h
  | some s =>
  cases hcall : st.calls[i]? with
  | none =>
    simp only [event, hsig, hcall]
    exact h
  | some stage =>
  have hstage := h.calls s hsig stage (mem_of_getElem? hcall)
  have hsafe : Prog.Safe (Keys.perform C) (fun _ _ _ => True) (fun _ w1 => w1 = st.keys.world) _
    (serveSection C s r st.shared stage) st.keys.world := safe_serveSection stage
  have hadm : (serveSection C s r st.shared stage).Admits (Keys.perform C) (fun _ _ _ => True)
      st.keys.world rs := Prog.admits_of_forall (fun _ _ _ => trivial) _ _ _
  cases hexec : (serveSection C s r st.shared stage).exec (Keys.perform C) st.keys.world rs with
  | mk w' p =>
  cases p with
  | ask op k =>
    obtain rfl := hsafe.stopped hadm hexec
    simp only [event, hsig, hcall, hexec]
    exact ⟨⟨h.steady.core, nofun⟩, h.pending, nofun, nofun⟩
  | ret out =>
    obtain ⟨rfl, hout⟩ := hsafe.returned hadm hexec
    simp only [event, hsig, hcall, hexec]
    have hs := (h.steady.signer s hsig).1
    -- What the section leads to is in step with the signer, which is the one of before.
    obtain ⟨hnext, hbare, hwritten⟩ : InStep C s st.keys.world out.2.stage ∧
        (∀ ch p, out.1.pending.lookup ch = some p → Bare p.prod) ∧
        ∀ x ∈ stage.written out, Source.enrolls x.source = true →
          Enrolls C s.chain x.prod ∧ x.Stored := by
      rcases hout with ⟨f, rfl⟩ | ⟨r', hserves, hmoves⟩
      · exact ⟨trivial, h.pending, fun x hx => by cases stage <;> cases hx⟩
      · exact ⟨hstage.moves hC hs hserves hmoves h.pending, Moves.bare hmoves hstage h.pending,
          Moves.enrolls hmoves hstage⟩
    refine ⟨⟨h.steady.core, fun s' hs' => h.steady.signer s' (hsig.trans hs')⟩, hbare,
      fun s' hs' st' hst' => ?_, fun s' hs' x hx => ?_⟩
    · cases hs'
      rcases mem_or_eq_of_mem_set hst' with hold | rfl
      · exact h.calls s hsig st' hold
      · exact hnext
    · cases hs'
      rcases mem_append.mp hx with hx | hx
      · exact h.writes s hsig x hx
      · exact hwritten x hx

lemma Inv.event (hC : Keys.Correct C) (h : Inv C store rot st) (e : Event)
    (he : Apart C dir store rot st e) : Inv C store rot (event C dir st e) := by
  cases e with
  | start origin store' rotator rs =>
    have hsteady := Keys.steady_step hC (.start origin store' rotator rs) h.steady he
    exact ⟨hsteady, fun ch p hp => (by simp [SignedEnrollments.event] at hp),
      fun s hs stage hmem => (by cases hmem), fun s hs w hw => by cases hw⟩
  | rotate rs =>
    obtain ⟨hsteady, hbetween⟩ := he
    have hstep := Keys.steady_step hC _ h.steady hsteady
    cases hsig : st.keys.signer with
    | none =>
      have hnone : (Keys.step C dir st.keys (.rotate rs)).signer = none := by
        rw [Keys.step_idle hsig fun _ _ _ _ => by simp, hsig]
      exact ⟨hstep, h.pending, fun s hs => (by cases hnone.symm.trans hs),
        fun s hs => by cases hnone.symm.trans hs⟩
    | some s =>
      refine ⟨hstep, h.pending, fun s' hs' stage hmem => ?_, fun s' hs' w hw hsrc => ?_⟩
      · obtain ⟨-, l, hcerts⟩ := Keys.rotate_extends hsig (hsteady s hsig) hs'
        exact (h.calls s hsig stage hmem).rotate (hbetween stage hmem) hcerts
      · obtain ⟨-, l, hcerts⟩ := Keys.rotate_extends hsig (hsteady s hsig) hs'
        obtain ⟨henrolls, hstored⟩ := h.writes s hsig w hw hsrc
        exact ⟨henrolls.append hcerts, hstored⟩
  | call req =>
    refine ⟨h.steady, h.pending, fun s hs stage hmem => ?_, h.writes⟩
    rcases mem_append.mp hmem with hold | hnew
    · exact h.calls s hs stage hold
    · rw [mem_singleton.mp hnew]
      cases req with
      | registerProducer => exact nofun
      | _ => trivial
  | resume i r rs => exact h.resume hC i r rs
  | janitor =>
    refine ⟨h.steady, fun ch p hp => ?_, h.calls, h.writes⟩
    exact h.pending ch p
      (mem_lookup_iff.mpr (mem_of_mem_filter (mem_lookup_iff.mp hp)))

end

/-- **Stored enrollments verify while no rotation comes between the two signatures of a call**: in
every such interleaving each record that an enrollment call has written verifies with the signer's
chain, and so does what `GetProducer` read of it. -/
theorem enrollments_verify {C : Crypto} (hC : Keys.Correct C) (dir : Bytes)
    (store : Keys.KeyStore) (rot : Option (Option Group)) {es : List Event}
    (hes : Along (event C dir) (Apart C dir store rot) init es) {s : Keys.Signer}
    (hs : (run (event C dir) init es).keys.signer = some s) {w : Write}
    (hw : w ∈ (run (event C dir) init es).writes) (hsrc : Source.enrolls w.source = true) :
    (∃ key, s.chain.publicKeyAt w.prod.operatorEpoch = .ok (some key)) ∧
    w.prod.verifyEnrollment C (keyAt s.chain) (quantumKeyAt s.chain) = .ok () ∧
    (w.prod.TermsUtf8 → ∃ stored, w.db.getProducer none w.prod.id = .ok stored ∧
      stored.verifyEnrollment C (keyAt s.chain) (quantumKeyAt s.chain) = .ok ()) := by
  have hinit : Inv C store rot init :=
    ⟨⟨Keys.core_empty, nofun⟩, fun ch p hp => (by simp [init] at hp), nofun, nofun⟩
  have hrun := along_invariant (fun st e h he => h.event hC e he) hinit hes
  obtain ⟨henrolls, hstored⟩ := hrun.writes s hs w hw hsrc
  obtain ⟨hkey, hver⟩ := henrolls.verify (hrun.steady.signer s hs).1.good
  refine ⟨hkey, hver, fun hutf8 => ?_⟩
  obtain ⟨registeredAt, hget⟩ := hstored.getProducer hutf8
  exact ⟨_, hget, hver⟩

def withQuantum (i : Nat) (n : UInt8) (rs : List Keys.Choice) : List Keys.Choice :=
  rs.take i ++ { dilKey := Keys.quantumKeyOf n } :: rs.drop i

def sampleHybridRequest : EnrollmentRequest where
  id := lit "p"
  publicKey := List.replicate 32 5
  quantumPublicKey := List.replicate quantumPublicKeySize 6

def splitIssue (n : Nat) (rs : List Keys.Choice) : List Event :=
  let sections := fun n => List.replicate n (Event.resume 0 Enrollment.sampleEnrollReads [])
  [.start (lit "log") (.file Keys.sampleDir true) none (withQuantum 4 1 (Keys.genesisChoices 1 10)),
    .call (.issueEnrollment sampleHybridRequest)] ++ sections n ++
    [.rotate (withQuantum 2 2 rs)] ++ sections (5 - n)

def rotationKeepsFile : List Keys.Choice :=
  (Keys.rotateChoices 2 20).take 12 ++ [{ err := some Keys.notExist }]

def verdicts (es : List Event) : Option (Nat × List (Res Unit)) :=
  let st := run (event Keys.paired Keys.sampleDir) init es
  st.keys.signer.map fun s => (s.chain.certs.length, st.writes.map fun w =>
    w.prod.verifyEnrollment Keys.paired (keyAt s.chain) (quantumKeyAt s.chain))

def sampleIssue : List Event := splitIssue 4 rotationKeepsFile

theorem enrollments_verify_sample :
    ∃ s w, (run (event Keys.paired Keys.sampleDir) init sampleIssue).keys.signer = some s ∧
      s.chain.certs.length = 2 ∧ w.prod.quantumPublicKey ≠ [] ∧
      (run (event Keys.paired Keys.sampleDir) init sampleIssue).writes = [w] ∧
      w.prod.verifyEnrollment Keys.paired (keyAt s.chain) (quantumKeyAt s.chain) = .ok () := by
  have hes : Along (event Keys.paired Keys.sampleDir)
      (Apart Keys.paired Keys.sampleDir (.file Keys.sampleDir true) none) init sampleIssue := by
    decide +kernel
  have hlen : (run (event Keys.paired Keys.sampleDir) init sampleIssue).keys.signer.map
      (fun s => s.chain.certs.length) = some 2 := by
    decide +kernel
  have hwrites : (run (event Keys.paired Keys.sampleDir) init sampleIssue).writes.map
      (fun w => (Source.enrolls w.source, decide (w.prod.quantumPublicKey = []))) =
        [(true, false)] := by
    decide +kernel
  obtain ⟨s, hs, hcerts⟩ := Option.map_eq_some_iff.mp hlen
  obtain ⟨w, hw, heq⟩ := map_eq_singleton_iff.mp hwrites
  simp only [Prod.mk.injEq, decide_eq_false_iff_not] at heq
  have hver := enrollments_verify Keys.paired_correct Keys.sampleDir (.file Keys.sampleDir true)
    none hes hs (by rw [hw]; exact mem_singleton_self w) heq.1
  exact ⟨s, w, hs, hcerts, heq.2, hw, hver.2.1⟩

/-- **A rotation between the two signatures of a call splits its record**: it names epoch 0 and the
quantum key of that epoch, its quantum signature is of epoch 1, and it does not verify. -/
theorem rotation_splits_enrollment :
    verdicts (splitIssue 2 (Keys.rotateChoices 2 20)) =
      some (2, [.error (errorf "enrollment quantum signature invalid" [])]) := by
  decide +kernel

end Stele.Core.SignedEnrollments
