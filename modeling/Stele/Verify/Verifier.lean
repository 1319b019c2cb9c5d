import Stele.Checkpoint.Checkpoint

/-!
# The auditor's checks (`pkg/verify`, `checkpoint.VerifyWitnessesHybrid`)
-/

namespace Stele

open Lib List

variable (C : Crypto)

/-! ## Witness signatures -/

/-- What a verifier knows of a witness: its Ed25519 key and its Dilithium key, empty when it has
none. An unknown witness is an error. -/
abbrev Trust := Bytes → Except Err (Bytes × Bytes)

def countsQuantum (qpub msg : Bytes) (w : WitnessSig) : Bool :=
  if w.quantumPublicKey = [] ∨ w.quantumSignature = [] then false
  else if w.quantumPublicKey ≠ qpub then false
  else
    match Crypto.decodeQuantum w.quantumPublicKey with
    | .error _ => false
    | .ok qp => C.dilVerify qp msg w.quantumSignature

def countsWitness (trust : Trust) (msg : Bytes) (w : WitnessSig) : Res Bool :=
  match trust w.witnessID with
  | .error _ => .ok false
  | .ok (pub, qpub) =>
    if w.publicKey.length ≠ edPublicKeySize ∨ w.publicKey ≠ pub then .ok false
    else do
      let ok ← C.ed25519Verify pub msg w.signature
      return ok && (decide (qpub = []) || countsQuantum C qpub msg w)

def countWitnesses (trust : Trust) (msg : Bytes) : Nat → List (Option WitnessSig) → Res Nat
  | n, [] => .ok n
  | _, none :: _ => .error (.panic "invalid memory address or nil pointer dereference")
  | n, some w :: ws => do
    if ← countsWitness C trust msg w then countWitnesses trust msg (n + 1) ws
    else countWitnesses trust msg n ws

def verifyWitnessesHybrid (c : Checkpoint) (trust : Trust) : Res Nat :=
  countWitnesses C trust c.canonicalForWitness 0 c.witnesses

/-- The trust callback that `VerifyWitnesses` passes on: Ed25519 keys only. -/
def classicalTrust (trust : Bytes → Except Err Bytes) : Trust := fun id => do
  return (← trust id, [])

def verifyWitnesses (c : Checkpoint) (trust : Bytes → Except Err Bytes) : Res Nat :=
  verifyWitnessesHybrid C c (classicalTrust trust)

def WitnessOk (trust : Trust) (msg : Bytes) (w : WitnessSig) : Prop :=
  ∃ keys ∈ (trust w.witnessID).toOption,
    w.publicKey = keys.1 ∧ C.EdValid keys.1 msg w.signature ∧
      (keys.2 ≠ [] → w.quantumPublicKey = keys.2 ∧ C.DilValid keys.2 msg w.quantumSignature)

instance (trust : Trust) (msg : Bytes) (w : WitnessSig) : Decidable (WitnessOk C trust msg w) := by
  unfold WitnessOk
  infer_instance

def validWitnessIDs (c : Checkpoint) (trust : Trust) : List Bytes :=
  (c.witnesses.reduceOption.filter (WitnessOk C trust c.canonicalForWitness ·)).map
    WitnessSig.witnessID

variable {C}

lemma countsQuantum_eq {qpub : Bytes} (hq : qpub ≠ []) (msg : Bytes) (w : WitnessSig) :
    countsQuantum C qpub msg w = true ↔
      w.quantumPublicKey = qpub ∧ C.DilValid qpub msg w.quantumSignature := by
  unfold countsQuantum Crypto.decodeQuantum Crypto.DilValid
  by_cases hkey : w.quantumPublicKey = qpub
  · subst hkey
    by_cases hsig : w.quantumSignature = []
    · rw [if_pos (.inr hsig)]
      simp only [Bool.false_eq_true, true_and, false_iff, not_and]
      exact fun _ hdil => C.dilVerify_ne_nil hdil hsig
    · by_cases hlen : w.quantumPublicKey.length = quantumPublicKeySize
      · simp [hq, hsig, hlen]
      · simp [hq, hsig, hlen]
  · simp [hkey]

/-- The checks never panic: the key is compared with one of the right length first. -/
lemma countsWitness_cases (trust : Trust) (msg : Bytes) (w : WitnessSig) :
    ∃ b, countsWitness C trust msg w = .ok b ∧ (b = true ↔ WitnessOk C trust msg w) := by
  unfold countsWitness WitnessOk
  rcases trust w.witnessID with e | ⟨pub, qpub⟩
  · exact ⟨false, rfl, by simp [Except.toOption]⟩
  · simp only [Except.toOption, Option.mem_def, Option.some.injEq, exists_eq_left', ne_eq]
    by_cases hkey : w.publicKey.length = edPublicKeySize ∧ w.publicKey = pub
    · obtain ⟨hlen, rfl⟩ := hkey
      rw [if_neg (by simp [hlen]), Crypto.ed25519Verify, if_pos hlen, ok_bind]
      refine ⟨_, rfl, ?_⟩
      by_cases hq : qpub = []
      · simp [hq, Crypto.EdValid, hlen]
      · simp [hq, Crypto.EdValid, hlen, countsQuantum_eq hq]
    · refine ⟨false, if_pos (by tauto), ?_⟩
      simp only [Bool.false_eq_true, false_iff]
      rintro ⟨rfl, hed, -⟩
      exact hkey ⟨hed.1, rfl⟩

lemma countsWitness_eq (trust : Trust) (msg : Bytes) (w : WitnessSig) :
    countsWitness C trust msg w = .ok (decide (WitnessOk C trust msg w)) := by
  obtain ⟨b, hb, hiff⟩ := countsWitness_cases (C := C) trust msg w
  rw [hb]
  congr 1
  rw [Bool.eq_iff_iff, hiff, decide_eq_true_iff]

lemma countWitnesses_eq (trust : Trust) (msg : Bytes) (n : Nat) (ws : List (Option WitnessSig))
    (h : none ∉ ws) : countWitnesses C trust msg n ws =
      .ok (n + (ws.reduceOption.filter (WitnessOk C trust msg ·)).length) := by
  induction ws generalizing n with
  | nil => rfl
  | cons o ws ih =>
    cases o with
    | none => simp at h
    | some w =>
      have hws : none ∉ ws := fun hm => h (by simp [hm])
      rw [countWitnesses, countsWitness_eq, ok_bind, reduceOption_cons_of_some, filter_cons]
      by_cases hw : WitnessOk C trust msg w
      · simp only [hw, decide_true, ↓reduceIte, length_cons]
        rw [ih _ hws]
        congr 1
        omega
      · simp only [hw, decide_false, Bool.false_eq_true, ↓reduceIte]
        exact ih _ hws

lemma countWitnesses_nil (trust : Trust) (msg : Bytes) (n : Nat) (ws : List (Option WitnessSig))
    (h : none ∈ ws) : ∃ w, countWitnesses C trust msg n ws = .error (.panic w) := by
  induction ws generalizing n with
  | nil => simp at h
  | cons o ws ih =>
    cases o with
    | none => exact ⟨_, rfl⟩
    | some =>
      have hws : none ∈ ws := by simpa using h
      rw [countWitnesses, countsWitness_eq, ok_bind]
      split
      · exact ih _ hws
      · exact ih _ hws

lemma verifyWitnessesHybrid_eq {c : Checkpoint} (trust : Trust) (h : none ∉ c.witnesses) :
    verifyWitnessesHybrid C c trust = .ok (validWitnessIDs C c trust).length := by
  rw [verifyWitnessesHybrid, countWitnesses_eq _ _ _ _ h, Nat.zero_add, validWitnessIDs, length_map]

/-! ## `Verifier.Checkpoint` -/

structure Verifier where
  origin : Bytes
  rootPublicKey : Bytes
  chain : Option Chain
  thresholdGroup : Option Group := none
  minWitnesses : Int := 0
  witnessTrust : Option (Bytes → Except Err Bytes) := none

def Verifier.witnesses (C : Crypto) (v : Verifier) (c : Checkpoint) : Res Unit :=
  match v.witnessTrust with
  | none => .error (errorf "checkpoint: MinWitnesses set but WitnessTrust is nil" [])
  | some trust => do
    let valid ← verifyWitnesses C c trust
    ensure (v.minWitnesses ≤ valid)
      (errorf "checkpoint: %d valid witness signatures, want >= %d"
        [.nat valid, .int v.minWitnesses])

def Verifier.checkpoint (C : Crypto) (v : Verifier) (c : Checkpoint) : Res Unit := do
  ensure (c.origin = v.origin)
    (errorf "checkpoint origin %q does not match expected %q" [.bytes c.origin, .bytes v.origin])
  c.verify C v.chain v.rootPublicKey v.thresholdGroup
  checkIf (0 < v.minWitnesses) (v.witnesses C c)

lemma length_le_card_toFinset {α : Type} [DecidableEq α] (l : List α) :
    l.length ≤ l.toFinset.card ↔ l.Nodup := by
  rw [card_toFinset]
  constructor
  · intro h
    have heq := l.dedup_sublist.eq_of_length_le h
    exact heq ▸ l.nodup_dedup
  · intro h
    rw [h.dedup]

variable {trust : Bytes → Except Err Bytes}

lemma Verifier.checkpoint_ok {v : Verifier}
    (ht : v.witnessTrust = some trust) {c : Checkpoint} (hw : none ∉ c.witnesses) {u : Unit} :
    v.checkpoint C c = .ok u ↔ c.origin = v.origin ∧
      c.verify C v.chain v.rootPublicKey v.thresholdGroup = .ok () ∧
      v.minWitnesses ≤ (validWitnessIDs C c (classicalTrust trust)).length := by
  simp only [Verifier.checkpoint, bind_ok, ensure_ok, exists_const, checkIf_ok,
    Verifier.witnesses, ht, verifyWitnesses, verifyWitnessesHybrid_eq _ hw, Except.ok.injEq,
    exists_eq_left']
  have hmin : (0 < v.minWitnesses →
      v.minWitnesses ≤ (validWitnessIDs C c (classicalTrust trust)).length) ↔
      v.minWitnesses ≤ (validWitnessIDs C c (classicalTrust trust)).length := by omega
  rw [hmin]
  refine and_congr_right fun _ => ⟨?_, fun h => ⟨(), h⟩⟩
  rintro ⟨_, h⟩
  exact h

/-- A nil element makes the auditor panic as soon as it asks for a witness. -/
lemma Verifier.checkpoint_nil {v : Verifier}
    (ht : v.witnessTrust = some trust) {c : Checkpoint} (hw : none ∈ c.witnesses) {u : Unit}
    (h : v.checkpoint C c = .ok u) : v.minWitnesses ≤ 0 := by
  obtain ⟨w, hpanic⟩ :=
    countWitnesses_nil (C := C) (classicalTrust trust) c.canonicalForWitness 0 _ hw
  simp only [Verifier.checkpoint, bind_ok, checkIf_ok, Verifier.witnesses, ht, verifyWitnesses,
    verifyWitnessesHybrid, hpanic, reduceCtorEq, false_and, exists_false] at h
  obtain ⟨_, -, _, -, hmin⟩ := h
  exact not_lt.mp hmin

/-- **The witness count is a count of witnesses exactly when no valid witness ID repeats**, and so
is the quorum of a verifier that accepts the operator's half of the checkpoint. A checkpoint with a
nil element gets no count at all: the loop panics. -/
theorem witness_count_iff (c : Checkpoint) :
    (∀ trust : Trust,
      (∀ n, verifyWitnessesHybrid C c trust = .ok n →
        n ≤ (validWitnessIDs C c trust).toFinset.card) ↔
      none ∈ c.witnesses ∨ (validWitnessIDs C c trust).Nodup) ∧
    ∀ (v : Verifier) (trust : Bytes → Except Err Bytes),
      (∀ N : Int, { v with minWitnesses := N, witnessTrust := some trust }.checkpoint C c = .ok () →
        N ≤ (validWitnessIDs C c (classicalTrust trust)).toFinset.card) ↔
      c.origin ≠ v.origin ∨ c.verify C v.chain v.rootPublicKey v.thresholdGroup ≠ .ok () ∨
        none ∈ c.witnesses ∨ (validWitnessIDs C c (classicalTrust trust)).Nodup := by
  by_cases hw : none ∈ c.witnesses
  · simp only [hw, true_or, or_true, iff_true]
    refine ⟨fun trust n hn => ?_, fun v trust N hN => ?_⟩
    · obtain ⟨w, hpanic⟩ := countWitnesses_nil (C := C) trust c.canonicalForWitness 0 _ hw
      rw [verifyWitnessesHybrid, hpanic] at hn
      cases hn
    · have hnil := Verifier.checkpoint_nil
        (v := { v with minWitnesses := N, witnessTrust := some trust }) rfl hw hN
      simp only at hnil
      omega
  · simp only [hw, false_or]
    refine ⟨fun trust => ?_, fun v trust => ?_⟩
    · rw [verifyWitnessesHybrid_eq _ hw, ← length_le_card_toFinset]
      simp
    · rw [← length_le_card_toFinset]
      constructor
      · intro h
        by_contra hc
        simp only [not_or, not_not, ne_eq] at hc
        obtain ⟨ho, hv, hlt⟩ := hc
        have := h (validWitnessIDs C c (classicalTrust trust)).length
          ((Verifier.checkpoint_ok rfl hw).mpr ⟨ho, hv, le_refl _⟩)
        omega
      · rintro h N hN
        obtain ⟨ho, hv, hle⟩ := (Verifier.checkpoint_ok rfl hw).mp hN
        rcases h with h | h | h
        · exact absurd ho h
        · exact absurd hv h
        · simp only at hle
          omega

def operatorKey : Bytes := List.replicate 32 1

def RotationCert.signedWith (priv : Bytes) (cert : RotationCert) : RotationCert :=
  { cert with signature := Crypto.sample.edSign priv cert.canonical }

def soloChain : Chain where
  origin := lit "log"
  certs := [some (RotationCert.signedWith operatorKey
    { epoch := 0, publicKey := operatorKey, startedAt := 0, signedBy := operatorKey })]

def Checkpoint.signedWith (priv : Bytes) (c : Checkpoint) : Checkpoint :=
  { c with signature := Crypto.sample.edSign priv c.canonical }

def soloCheckpoint : Checkpoint := .signedWith operatorKey {
  origin := lit "log"
  size := 0
  rootHash := []
  headHash := []
  timeNanos := 0
  epochIdx := 0
  keyID := keyIDOf Crypto.sample operatorKey }

def soloWitnessSig : WitnessSig where
  witnessID := lit "w"
  publicKey := List.replicate 32 7
  keyID := []
  signature := Crypto.sample.edSign (List.replicate 32 7) soloCheckpoint.canonicalForWitness
  signedAt := 0

def twiceWitnessed : Checkpoint :=
  { soloCheckpoint with witnesses := [some soloWitnessSig, some soloWitnessSig] }

/-- **A repeated signature is counted twice**: one trusted witness makes a quorum of two. -/
theorem witness_counted_twice :
    let trust : Bytes → Except Err Bytes := fun _ => .ok (List.replicate 32 7)
    verifyWitnessesHybrid Crypto.sample twiceWitnessed (classicalTrust trust) = .ok 2 ∧
      (validWitnessIDs Crypto.sample twiceWitnessed (classicalTrust trust)).toFinset.card = 1 ∧
      Verifier.checkpoint Crypto.sample
        { origin := lit "log", rootPublicKey := operatorKey, chain := some soloChain,
          minWitnesses := 2, witnessTrust := some trust } twiceWitnessed = .ok () := by
  refine ⟨by rfl, by rfl, by rfl⟩

/-! ## The group that a verifier supplies -/

lemma signers_nil (g : Group) (msg : Bytes) : signers C g msg [] = ∅ := by
  ext m
  simp [mem_signers]

lemma quorum_of_verifyMulti {g : Group} {msg : Bytes} {sigs : List (Option MemberSig)}
    (h : verifyMulti C (some g) msg sigs = .ok ()) : g.threshold ≤ (signers C g msg sigs).card := by
  obtain ⟨g', hg', -, hcard⟩ := verifyMulti_ok.mp h
  cases hg'
  exact hcard

lemma Chain.Linked.verified {group : Option Group} {prev : Option RotationCert}
    {cs : List RotationCert} (h : Chain.Linked C group prev cs) {c : RotationCert} (hc : c ∈ cs) :
    c.SingleOk C ∨ c.GroupOk C group := by
  induction cs generalizing prev with
  | nil => cases hc
  | cons d cs ih =>
    rcases mem_cons.mp hc with rfl | hc
    · exact h.1
    · exact ih h.2.2 hc

/-- **A supplied group is enforced exactly on inputs that carry member signatures.** A checkpoint
without any is accepted on the operator's single signature, and so is a rotation. -/
theorem threshold_enforced_iff (C : Crypto) (g : Group)
    (hg : Group.validate (some g) = .ok ()) (rootPub : Bytes) :
    (∀ (c : Checkpoint) (chain : Option Chain),
      (c.verify C chain rootPub (some g) = .ok () →
        g.threshold ≤ (signers C g c.canonical c.memberSigs).card) ↔
      (c.memberSigs = [] →
        ∀ ch pub qpub, chain = some ch → ¬ c.ChainSigned C ch rootPub pub qpub)) ∧
    ∀ ch : Chain,
      (ch.verifyChainWithGroup C rootPub (some g) = .ok () →
        ∀ cert, some cert ∈ ch.certs.tail →
          g.threshold ≤ (signers C g cert.canonical cert.memberSigs).card) ↔
      ∀ genesis rest, ch.Accepted C rootPub (some g) genesis rest →
        ∀ cert ∈ rest, cert.memberSigs ≠ [] := by
  obtain ⟨ms, hwf⟩ := Group.validate_ok.mp hg
  have hpos : 0 < g.threshold := Nat.pos_of_ne_zero hwf.threshold_pos
  -- an empty list has no signer, and a quorum is never empty
  have hnil {msg : Bytes} : ¬ g.threshold ≤ (signers C g msg []).card := by
    rw [signers_nil, Finset.card_empty]
    omega
  refine ⟨fun c chain => ?_, fun ch => ?_⟩
  · rw [Checkpoint.verify_ok]
    by_cases hms : c.memberSigs = []
    · rw [if_neg (not_not.mpr hms), hms]
      constructor
      · exact fun h _ ch pub qpub hch hsigned => hnil (h ⟨ch, pub, qpub, hch, hsigned⟩)
      · rintro h ⟨ch, pub, qpub, hch, hsigned⟩
        exact absurd hsigned (h rfl ch pub qpub hch)
    · rw [if_pos hms]
      exact ⟨fun _ h => absurd h hms, fun _ h => quorum_of_verifyMulti h.quorum⟩
  · rw [Chain.verifyChainWithGroup, Chain.verifyChainWith_ok]
    constructor
    · intro h genesis rest hacc cert hcert hms
      have hq := h ⟨genesis, rest, hacc⟩ cert (by
        rw [hacc.certs]
        exact mem_map_of_mem hcert)
      rw [hms] at hq
      exact hnil hq
    · rintro h ⟨genesis, rest, hacc⟩ cert hcert
      rw [hacc.certs, map_cons, tail_cons] at hcert
      obtain ⟨cert', hcert', heq⟩ := mem_map.mp hcert
      cases heq
      have hms := h genesis rest hacc cert hcert'
      rcases hacc.linked.verified (mem_cons_of_mem _ hcert') with hs | hs
      · exact absurd hs.memberSigs hms
      · exact quorum_of_verifyMulti hs.quorum

def guardGroup : Group where
  version := 1
  origin := lit "log"
  members := [some { id := lit "g", publicKey := List.replicate 32 9 }]
  threshold := 1
  createdAt := 0

def rotatedChain : Chain where
  origin := lit "log"
  certs := soloChain.certs ++ [some (RotationCert.signedWith operatorKey
    { epoch := 1, publicKey := List.replicate 32 2, startedAt := 0, signedBy := operatorKey })]

theorem threshold_enforced_iff_otherRoot :
    Group.validate (some guardGroup) = .ok () ∧
    (rotatedChain.verifyChainWithGroup Crypto.sample (List.replicate 32 9) (some guardGroup) =
        .ok () → ∀ cert, some cert ∈ rotatedChain.certs.tail →
      guardGroup.threshold ≤
        (signers Crypto.sample guardGroup cert.canonical cert.memberSigs).card) := by
  refine ⟨by rfl, ((threshold_enforced_iff Crypto.sample guardGroup (by rfl)
    (List.replicate 32 9)).2 rotatedChain).mpr fun genesis rest hacc => ?_⟩
  have hkey := hacc.publicKey
  have hcerts := hacc.certs
  simp only [rotatedChain, soloChain, cons_append, map_cons, List.cons.injEq,
    Option.some.injEq] at hcerts
  rw [← hcerts.1] at hkey
  exact absurd hkey (by decide)

/-- **The operator's key alone gets past a group**: no member signed the checkpoint or the
rotation, and both are accepted. -/
theorem threshold_bypassed :
    Group.validate (some guardGroup) = .ok () ∧
    soloCheckpoint.verify Crypto.sample (some soloChain) operatorKey (some guardGroup) = .ok () ∧
    rotatedChain.verifyChainWithGroup Crypto.sample operatorKey (some guardGroup) = .ok () ∧
    (signers Crypto.sample guardGroup soloCheckpoint.canonical soloCheckpoint.memberSigs).card <
      guardGroup.threshold ∧
    ∀ cert, some cert ∈ rotatedChain.certs.tail →
      (signers Crypto.sample guardGroup cert.canonical cert.memberSigs).card <
        guardGroup.threshold := by
  have hnil (msg : Bytes) :
      (signers Crypto.sample guardGroup msg []).card < guardGroup.threshold := by
    rw [signers_nil]
    decide
  refine ⟨by rfl, by rfl, by rfl, hnil _, fun cert hcert => ?_⟩
  simp only [rotatedChain, soloChain, cons_append, nil_append, tail_cons,
    mem_singleton, Option.some.injEq] at hcert
  rw [hcert]
  exact hnil _

end Stele
