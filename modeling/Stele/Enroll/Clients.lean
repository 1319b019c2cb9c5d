import Stele.Storage.Terms

/-!
# Enrollment clients (`cmd/stele`, `pkg/attest`, `sdk/python`, `sdk/typescript`)

A producer proves possession of its key by signing a challenge. The server sends the challenge as
bytes, and the same key signs the producer's envelopes.
-/

namespace Stele.Enroll

open Lib

structure BeginRequest where
  id : Bytes
  publicKey : Bytes
  quantumPublicKey : Bytes := []
  attestationType : Bytes
  description : Bytes := []
  scope : Bytes := []
  validitySeconds : Int := 0
  deriving DecidableEq, Repr

/-- The body of `/enrollments/confirm`, with the bytes that were signed. The SDKs send the challenge
ID back as the JSON value they got. -/
structure Released where
  message : Bytes
  challengeID : Option Json
  signature : Bytes
  quantumSignature : Bytes := []

/-- The reply to `/enrollments/begin`: an error, or the JSON body. An empty body is `null`. -/
abbrev Reply := Except Err Json

def fetched (reply : Reply) : Res Json := reply.mapError .err

/-! ## Go -/

structure Attestor where
  id : Bytes
  priv : Bytes
  qPriv : Option Bytes
  deriving DecidableEq, Repr

def Attestor.quantumPublicKey (C : Crypto) (a : Attestor) : Bytes :=
  (a.qPriv.map C.dilPublic).getD []

def Attestor.quantumSign (C : Crypto) (a : Attestor) (msg : Bytes) : Bytes :=
  (a.qPriv.map (C.dilSign · msg)).getD []

def Attestor.signChallenge (C : Crypto) (a : Attestor) (challenge : Bytes) :
    Res (Bytes × Bytes) := do
  ensure (a.priv ≠ []) (errorf "software attestor: no key loaded" [])
  return (C.edSign a.priv challenge, a.quantumSign C challenge)

structure BeginResponse where
  challengeID : Bytes
  challengeBytes : Bytes
  deriving DecidableEq, Repr

def BeginResponse.ofJson (j : Json) : Res BeginResponse := do
  return {
    challengeID := ← j.field "challenge_id" >>= Json.getStr
    challengeBytes := ← j.field "challenge_bytes" >>= Json.getBytes }

structure Flags where
  id : Bytes
  keyPath : Bytes
  description : Bytes := []
  scope : Bytes := []
  validitySeconds : Int := 0
  unverified : Bool := false
  deriving DecidableEq, Repr

def Flags.request (C : Crypto) (flags : Flags) (a : Attestor) : BeginRequest where
  id := flags.id
  publicKey := C.edPublic a.priv
  quantumPublicKey := a.quantumPublicKey C
  attestationType := lit "software"
  description := flags.description
  scope := flags.scope
  validitySeconds := flags.validitySeconds

/-- `cmdEnrollProducer` up to its second request. `load` is the key file. The unverified path sends
no signature. -/
def cmdEnrollProducer (C : Crypto) (flags : Flags) (load : Except Err Attestor) (reply : Reply) :
    Res (Option Released) := do
  ensure (flags.id ≠ []) (errorf "enroll-producer: --id is required" [])
  if flags.unverified then return none
  ensure (flags.keyPath ≠ [])
    (errorf "enroll-producer: --key is required for the proof-of-possession flow (use --unverified --pub for the legacy path)"
      [])
  let att ← load.mapError Fault.err
  let r ← wrapErr "enroll-producer: begin: %w" [] (fetched reply >>= BeginResponse.ofJson)
  ensure (r.challengeID ≠ [] ∧ r.challengeBytes ≠ [])
    (errorf "enroll-producer: server returned an empty challenge" [])
  let sigs ← wrapErr "enroll-producer: sign challenge: %w" [] (att.signChallenge C r.challengeBytes)
  return some {
    message := r.challengeBytes
    challengeID := some (.ofStr r.challengeID)
    signature := sigs.1
    quantumSignature := sigs.2 }

/-! ## The SDKs -/

structure SdkProducer where
  id : Bytes
  priv : Bytes
  attestationType : Bytes := lit "software"
  description : Bytes := []
  scope : Bytes := []
  validitySeconds : Int := 0
  deriving DecidableEq, Repr

def SdkProducer.request (C : Crypto) (p : SdkProducer) : BeginRequest where
  id := p.id
  publicKey := C.edPublic p.priv
  attestationType := p.attestationType
  description := p.description
  scope := p.scope
  validitySeconds := if 0 < p.validitySeconds then p.validitySeconds else 0

def property (name : String) (fields : List (String × Json)) : Option Json :=
  (fields.filter (·.1 = name)).getLast?.map Prod.snd

structure Runtime where
  python : Bytes → Except Err Bytes
  typescript : Json → Except Err Bytes

namespace Python

def getItem (name : String) : Json → Res Json
  | .obj fields =>
    match property name fields with
    | some v => .ok v
    | none => .error (errorf "KeyError" [])
  | _ => .error (errorf "TypeError" [])

def b64decodeStr (rt : Runtime) : Json → Res Bytes
  | .str s => (rt.python s).mapError .err
  | _ => .error (errorf "TypeError" [])

def enroll (C : Crypto) (rt : Runtime) (p : SdkProducer) (reply : Reply) :
    Res (Option Released) := do
  let body ← fetched reply
  let challengeID ← getItem "challenge_id" body
  let challenge ← getItem "challenge_bytes" body >>= b64decodeStr rt
  return some {
    message := challenge
    challengeID := some challengeID
    signature := C.edSign p.priv challenge }

end Python

namespace TypeScript

def getProp (name : String) : Json → Res (Option Json)
  | .null => .error (errorf "TypeError" [])
  | .obj fields => .ok (property name fields)
  | _ => .ok none

def b64decode (rt : Runtime) : Option Json → Res Bytes
  | none => .error (errorf "TypeError" [])
  | some v => (rt.typescript v).mapError .err

def enroll (C : Crypto) (rt : Runtime) (p : SdkProducer) (reply : Reply) :
    Res (Option Released) := do
  let body ← fetched reply
  let challenge ← getProp "challenge_bytes" body >>= b64decode rt
  let challengeID ← getProp "challenge_id" body
  return some {
    message := challenge
    challengeID := challengeID
    signature := C.edSign p.priv challenge }

end TypeScript

/-! ## What a client signs -/

inductive Client
  | go (flags : Flags) (att : Attestor)
  | python (p : SdkProducer)
  | typescript (p : SdkProducer)

namespace Client

def priv : Client → Bytes
  | .go _ att => att.priv
  | .python p => p.priv
  | .typescript p => p.priv

def quantumSign (C : Crypto) (m : Bytes) : Client → Bytes
  | .go _ att => att.quantumSign C m
  | .python _ => []
  | .typescript _ => []

def request (C : Crypto) : Client → BeginRequest
  | .go flags att => flags.request C att
  | .python p => p.request C
  | .typescript p => p.request C

def enroll (C : Crypto) (rt : Runtime) (reply : Reply) : Client → Res (Option Released)
  | .go flags att => cmdEnrollProducer C flags (.ok att) reply
  | .python p => Python.enroll C rt p reply
  | .typescript p => TypeScript.enroll C rt p reply

def Takes (rt : Runtime) (body : Json) (m : Bytes) : Client → Prop
  | .go flags att =>
    flags.id ≠ [] ∧ flags.unverified = false ∧ flags.keyPath ≠ [] ∧ att.priv ≠ [] ∧ m ≠ [] ∧
      ∃ id, id ≠ [] ∧ BeginResponse.ofJson body = .ok ⟨id, m⟩
  | .python _ =>
    ∃ fields id s, body = .obj fields ∧ property "challenge_id" fields = some id ∧
      property "challenge_bytes" fields = some (.str s) ∧ rt.python s = .ok m
  | .typescript _ =>
    ∃ fields v, body = .obj fields ∧ property "challenge_bytes" fields = some v ∧
      rt.typescript v = .ok m

end Client

section
variable {C : Crypto} {rt : Runtime} {reply : Reply} {rel : Released} {m : Bytes}

lemma getItem_ok {name : String} {body v : Json} : Python.getItem name body = .ok v ↔
    ∃ fields, body = .obj fields ∧ property name fields = some v := by
  unfold Python.getItem
  split
  · rename_i fields
    simp only [Json.obj.injEq, exists_eq_left']
    cases property name fields <;> simp
  · rename_i hobj
    simp only [reduceCtorEq, false_iff]
    rintro ⟨fields, rfl, -⟩
    exact hobj fields rfl

lemma b64decodeStr_ok {v : Json} :
    Python.b64decodeStr rt v = .ok m ↔ ∃ s, v = .str s ∧ rt.python s = .ok m := by
  unfold Python.b64decodeStr
  split
  · simp
  · rename_i hstr
    simp only [reduceCtorEq, false_iff]
    rintro ⟨s, rfl, -⟩
    exact hstr s rfl

lemma getProp_some {name : String} {body v : Json} :
    TypeScript.getProp name body = .ok (some v) ↔
      ∃ fields, body = .obj fields ∧ property name fields = some v := by
  unfold TypeScript.getProp
  split
  · simp
  · simp
  · rename_i hobj
    simp only [Except.ok.injEq, reduceCtorEq, false_iff]
    rintro ⟨fields, rfl, -⟩
    exact hobj fields rfl

lemma tsDecode_ok {o : Option Json} :
    TypeScript.b64decode rt o = .ok m ↔ ∃ v, o = some v ∧ rt.typescript v = .ok m := by
  cases o <;> simp [TypeScript.b64decode]

lemma signChallenge_ok {att : Attestor} {sigs : Bytes × Bytes} :
    att.signChallenge C m = .ok sigs ↔ att.priv ≠ [] ∧
      (C.edSign att.priv m, att.quantumSign C m) = sigs := by
  simp only [Attestor.signChallenge, bind_ok, ensure_ok, exists_const, pure_ok]

lemma takes_of_enroll {cl : Client} (h : cl.enroll C rt reply = .ok (some rel)) :
    ∃ body, reply = .ok body ∧ cl.Takes rt body rel.message ∧
      rel.signature = C.edSign cl.priv rel.message ∧
      rel.quantumSignature = cl.quantumSign C rel.message := by
  cases cl with
  | go flags =>
    simp only [Client.enroll, cmdEnrollProducer, bind_ok, ensure_ok, exists_const, fetched] at h
    obtain ⟨hid, h⟩ := h
    cases hun : flags.unverified with
    | true => simp [hun] at h
    | false =>
      simp only [hun, Bool.false_eq_true, ↓reduceIte, bind_ok, ensure_ok, exists_const, mapError_ok,
        Except.ok.injEq, exists_eq_left', wrapErr_ok, signChallenge_ok, pure_ok,
        Option.some.injEq] at h
      obtain ⟨hkey, ⟨id, m⟩, ⟨body, hreply, hbody⟩, ⟨hcid, hm⟩, sigs, ⟨hpriv, rfl⟩, rfl⟩ := h
      exact ⟨body, hreply, ⟨hid, hun, hkey, hpriv, hm, id, hcid, hbody⟩, rfl, rfl⟩
  | python =>
    simp only [Client.enroll, Python.enroll, fetched, bind_ok, mapError_ok, pure_ok,
      Option.some.injEq, getItem_ok, b64decodeStr_ok] at h
    obtain ⟨body, hreply, id, ⟨fields, rfl, hid⟩, m, ⟨v, ⟨fields', hobj, hv⟩, s, rfl, hm⟩, rfl⟩ := h
    cases hobj
    exact ⟨_, hreply, ⟨fields, id, s, rfl, hid, hv, hm⟩, rfl, rfl⟩
  | typescript =>
    simp only [Client.enroll, TypeScript.enroll, fetched, bind_ok, mapError_ok, pure_ok,
      Option.some.injEq, tsDecode_ok] at h
    obtain ⟨body, hreply, m, ⟨_, hprop, v, rfl, hm⟩, id, hid, rfl⟩ := h
    obtain ⟨fields, rfl, hv⟩ := getProp_some.mp hprop
    exact ⟨_, hreply, ⟨fields, v, rfl, hv, hm⟩, rfl, rfl⟩

/-- **A client signs every challenge it takes from the reply**, whatever the bytes are. -/
theorem enroll_of_takes {cl : Client} {body : Json} (h : cl.Takes rt body m) :
    ∃ rel, cl.enroll C rt (.ok body) = .ok (some rel) ∧ rel.message = m := by
  cases cl with
  | go flags att =>
    obtain ⟨hid, hun, hkey, hpriv, hm, id, hcid, hbody⟩ := h
    refine ⟨{ message := m, challengeID := some (.ofStr id), signature := C.edSign att.priv m,
              quantumSignature := att.quantumSign C m }, ?_, rfl⟩
    simp only [Client.enroll, cmdEnrollProducer, hun, Bool.false_eq_true, ↓reduceIte, bind_ok,
      ensure_ok, exists_const, mapError_ok, Except.ok.injEq, exists_eq_left', wrapErr_ok, fetched,
      signChallenge_ok, pure_ok, Option.some.injEq]
    exact ⟨hid, hkey, ⟨id, m⟩, hbody, ⟨hcid, hm⟩, _, ⟨hpriv, rfl⟩, rfl⟩
  | python p =>
    obtain ⟨fields, id, s, rfl, hid, hv, hm⟩ := h
    refine ⟨⟨m, some id, C.edSign p.priv m, []⟩, ?_, rfl⟩
    simp only [Client.enroll, Python.enroll, fetched, bind_ok, mapError_ok, pure_ok,
      Option.some.injEq, getItem_ok, b64decodeStr_ok]
    exact ⟨_, rfl, id, ⟨fields, rfl, hid⟩, m, ⟨_, ⟨fields, rfl, hv⟩, s, rfl, hm⟩, rfl⟩
  | typescript p =>
    obtain ⟨fields, v, rfl, hv, hm⟩ := h
    refine ⟨⟨m, property "challenge_id" fields, C.edSign p.priv m, []⟩, ?_, rfl⟩
    simp only [Client.enroll, TypeScript.enroll, fetched, bind_ok, mapError_ok, pure_ok,
      Option.some.injEq, tsDecode_ok]
    exact ⟨_, rfl, m, ⟨_, getProp_some.mpr ⟨fields, rfl, hv⟩, v, rfl, hm⟩, _, rfl, rfl⟩

end

/-! ## Challenges and envelopes -/

def OwnChallenge (req : BeginRequest) (m : Bytes) : Prop :=
  ∃ p : Producer, p.id = req.id ∧ p.publicKey = req.publicKey ∧
    p.quantumPublicKey = req.quantumPublicKey ∧ p.attestationType = req.attestationType ∧
    p.scope = req.scope ∧ p.challengeNonce ≠ [] ∧ p.challengeBytes = m

def steleLength : Nat := 0x7374656c

/-- **A challenge is no envelope**, up to almost two gigabytes: read as an envelope, its first
letters are the length of the producer ID. -/
theorem ownChallenge_ne_canonical {req : BeginRequest} {m : Bytes} (h : OwnChallenge req m)
    (hlen : m.length < steleLength) (e : Envelope) : e.canonical ≠ m := by
  obtain ⟨p, -, -, -, -, -, hnonce, rfl⟩ := h
  intro heq
  have hcan : e.producerID.length ≤ e.canonical.length := by
    simp only [Envelope.canonical, put, List.length_append]
    omega
  have hid : e.producerID.length < 0x7374656c := by
    rw [heq] at hcan
    exact Nat.lt_of_le_of_lt hcan hlen
  exact Producer.challengeBytes_ne_canonical hnonce hid heq.symm

/-! ## Enrollment as a signing oracle -/

/-- No signature that the client releases, classical or quantum, is the producer's signature on an
envelope among `E`. -/
def NoOracle (C : Crypto) (rt : Runtime) (cl : Client) (reply : Reply) (E : Envelope → Prop) :
    Prop :=
  ∀ rel, cl.enroll C rt reply = .ok (some rel) → ∀ e, E e → e.publicKey = C.edPublic cl.priv →
    ¬ C.EdValid e.publicKey e.canonical rel.signature ∧
    ¬ C.DilValid (cl.request C).quantumPublicKey e.canonical rel.quantumSignature

def OnlyOwn (C : Crypto) (rt : Runtime) (cl : Client) (reply : Reply) : Prop :=
  ∀ rel, cl.enroll C rt reply = .ok (some rel) → OwnChallenge (cl.request C) rel.message

/-- What is assumed of the signature schemes: the signature on the challenge verifies, and among the
envelopes `E` that anyone comes up with neither half verifies one that is not the challenge
itself. -/
structure Unforged (C : Crypto) (cl : Client) (E : Envelope → Prop) (m : Bytes) : Prop where
  signs : C.EdValid (C.edPublic cl.priv) m (C.edSign cl.priv m)
  classical : ∀ e, E e → e.publicKey = C.edPublic cl.priv →
    C.EdValid e.publicKey e.canonical (C.edSign cl.priv m) → e.canonical = m
  quantum : ∀ e, E e → e.publicKey = C.edPublic cl.priv →
    C.DilValid (cl.request C).quantumPublicKey e.canonical (cl.quantumSign C m) → e.canonical = m

/-- **When enrollment is no signing oracle**, for each of the three clients: the challenge in the
reply is not the canonical form of an envelope. And a client signs only challenges for its own
identity when the server sends no other. -/
theorem enrollment_oracle_iff (C : Crypto) (rt : Runtime) (cl : Client) (reply : Reply)
    (E : Envelope → Prop)
    (hscheme : ∀ body m, reply = .ok body → cl.Takes rt body m → Unforged C cl E m) :
    (NoOracle C rt cl reply E ↔ ∀ body m, reply = .ok body → cl.Takes rt body m →
      ∀ e, E e → e.publicKey = C.edPublic cl.priv → e.canonical ≠ m) ∧
    (OnlyOwn C rt cl reply ↔ ∀ body m, reply = .ok body → cl.Takes rt body m →
      OwnChallenge (cl.request C) m) := by
  refine ⟨⟨fun h body m hreply htakes e he hpub hcan => ?_, fun h rel hrel e he hpub => ?_⟩,
    fun h body m hreply htakes => ?_, fun h rel hrel => ?_⟩
  · subst hreply
    obtain ⟨rel, hrel, rfl⟩ := enroll_of_takes (C := C) htakes
    obtain ⟨_, -, -, hsig, -⟩ := takes_of_enroll hrel
    refine (h rel hrel e he hpub).1 ?_
    rw [hpub, hcan, hsig]
    exact (hscheme body _ rfl htakes).signs
  · obtain ⟨body, hreply, htakes, hsig, hqsig⟩ := takes_of_enroll hrel
    have hne := h body _ hreply htakes e he hpub
    have hunforged := hscheme body _ hreply htakes
    rw [hsig, hqsig]
    exact ⟨fun hed => hne (hunforged.classical e he hpub hed),
      fun hdil => hne (hunforged.quantum e he hpub hdil)⟩
  · subst hreply
    obtain ⟨rel, hrel, rfl⟩ := enroll_of_takes (C := C) htakes
    exact h rel hrel
  · obtain ⟨body, hreply, htakes, -⟩ := takes_of_enroll hrel
    exact h body _ hreply htakes

def producerKey : Bytes := List.replicate 32 5

def goClient : Client :=
  .go { id := lit "p", keyPath := lit "p.key" } ⟨lit "p", producerKey, none⟩

def pythonClient : Client := .python { id := lit "p", priv := producerKey }

def typescriptClient : Client := .typescript { id := lit "p", priv := producerKey }

def standardBase64 (s : Bytes) : Except Err Bytes :=
  match unb64 s with
  | some b => .ok b
  | none => .error (.errorf "illegal base64 data" [])

def sampleRuntime : Runtime where
  python := standardBase64
  typescript
    | .str s => standardBase64 s
    | _ => .error (.errorf "TypeError" [])

def challengeBody (m : Bytes) : Json :=
  .obj [("challenge_id", .str (lit "c")), ("challenge_bytes", .ofBytes m)]

lemma takes_challengeBody {m : Bytes} (hm : m ≠ []) (m' : Bytes) :
    (goClient.Takes sampleRuntime (challengeBody m) m' ↔ m' = m) ∧
    (pythonClient.Takes sampleRuntime (challengeBody m) m' ↔ m' = m) ∧
    (typescriptClient.Takes sampleRuntime (challengeBody m) m' ↔ m' = m) := by
  have hb64 : standardBase64 (b64 m) = .ok m := by rw [standardBase64, unb64_b64]
  have hgo : BeginResponse.ofJson (challengeBody m) = .ok ⟨lit "c", m⟩ := by
    simp [BeginResponse.ofJson, challengeBody, Json.field, Json.lastField, Json.getStr]
  refine ⟨?_, ?_, ?_⟩
  · simp only [goClient, Client.Takes, hgo, Except.ok.injEq, BeginResponse.mk.injEq]
    constructor
    · rintro ⟨-, -, -, -, -, id, -, -, rfl⟩
      rfl
    · rintro rfl
      exact ⟨by decide, trivial, by decide, by decide, hm, _, by decide, rfl, rfl⟩
  · simp [pythonClient, Client.Takes, challengeBody, property, Json.ofBytes, sampleRuntime, hb64,
      eq_comm]
  · simp [typescriptClient, Client.Takes, challengeBody, property, Json.ofBytes, sampleRuntime,
      hb64, eq_comm]

def enrolled : Producer where
  id := lit "p"
  publicKey := producerKey
  attestationType := lit "software"
  challengeNonce := List.replicate 32 6

def fabricated : Envelope where
  producerID := lit "p"
  timeNanos := 0
  source := lit "s"
  data := lit "never said"
  publicKey := producerKey
  type := lit "software"
  evidenceHash := []
  evidence := []
  signature := []
  quantumPublicKey := []
  quantumSignature := []

theorem enrollment_oracle_iff_honest :
    (∃ rel, pythonClient.enroll .sample sampleRuntime
      (.ok (challengeBody enrolled.challengeBytes)) = .ok (some rel)) ∧
    NoOracle .sample sampleRuntime pythonClient (.ok (challengeBody enrolled.challengeBytes))
      (· = fabricated) ∧
    OnlyOwn .sample sampleRuntime pythonClient (.ok (challengeBody enrolled.challengeBytes)) := by
  have htakes := takes_challengeBody (m := enrolled.challengeBytes) (by decide)
  have hown : OwnChallenge (pythonClient.request .sample) enrolled.challengeBytes :=
    ⟨enrolled, rfl, rfl, rfl, rfl, rfl, by decide, rfl⟩
  have hiff := enrollment_oracle_iff .sample sampleRuntime pythonClient
    (.ok (challengeBody enrolled.challengeBytes)) (· = fabricated) (by
      rintro _ m ⟨⟩ hm
      rw [(htakes m).2.1.mp hm]
      refine ⟨⟨by decide, by decide⟩, ?_, ?_⟩
      · rintro e rfl - hvalid
        exact absurd hvalid (by decide)
      · rintro e rfl - hvalid
        exact absurd hvalid (by decide))
  obtain ⟨rel, hrel, -⟩ := enroll_of_takes (C := .sample) ((htakes _).2.1.mpr rfl)
  refine ⟨⟨rel, hrel⟩, hiff.1.mpr ?_, hiff.2.mpr ?_⟩
  · rintro _ m ⟨⟩ hm e - -
    rw [(htakes m).2.1.mp hm]
    exact ownChallenge_ne_canonical hown (by decide +kernel) e
  · rintro _ m ⟨⟩ hm
    rw [(htakes m).2.1.mp hm]
    exact hown

def Fabricates (cl : Client) : Prop :=
  ∃ rel, cl.enroll .sample sampleRuntime (.ok (challengeBody fabricated.canonical)) =
      .ok (some rel) ∧
    Envelope.verify .sample { fabricated with signature := rel.signature } = .ok () ∧
    ¬ OwnChallenge (cl.request .sample) rel.message

lemma fabricates {cl : Client} (hkey : cl.priv = producerKey)
    (htakes : cl.Takes sampleRuntime (challengeBody fabricated.canonical) fabricated.canonical) :
    Fabricates cl := by
  obtain ⟨rel, hrel, hmsg⟩ := enroll_of_takes (C := .sample) htakes
  obtain ⟨-, -, -, hsig, -⟩ := takes_of_enroll hrel
  refine ⟨rel, hrel, ?_, fun hown => ?_⟩
  · rw [hsig, hmsg, hkey]
    rfl
  · exact ownChallenge_ne_canonical hown (by rw [hmsg]; decide) fabricated hmsg.symm

/-- **A server gets an entry signed that the producer never made**, by each of the clients. -/
theorem enrollment_signs_fabricated :
    Fabricates goClient ∧ Fabricates pythonClient ∧ Fabricates typescriptClient := by
  obtain ⟨hgo, hpython, htypescript⟩ :=
    takes_challengeBody (m := fabricated.canonical) (by decide) fabricated.canonical
  exact ⟨fabricates rfl (hgo.mpr rfl), fabricates rfl (hpython.mpr rfl),
    fabricates rfl (htypescript.mpr rfl)⟩

end Stele.Enroll
