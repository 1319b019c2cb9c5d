import Stele.Core.Log
import Stele.Lib.Dict
import Stele.Verify.Verifier

/-!
# Gathering witness signatures (`pkg/core/witnesses.go`, `pkg/storage/witnesses.go`)

The operator keeps a record of each witness under its ID, asks every endpoint to cosign a checkpoint
and keeps the signatures that pass `validateWitnessSig`.
-/

namespace Stele

open Lib List Json

/-! ## The records -/

namespace Storage

structure Witness where
  id : Bytes
  url : Bytes
  publicKey : Bytes
  quantumPublicKey : Bytes := []
  description : Bytes := []
  addedAt : Int := 0
  deriving DecidableEq, Repr

namespace Witness

def toJson (w : Witness) : Json := .obj <|
  fld "id" (.ofStr w.id) ++
  fld "url" (.ofStr w.url) ++
  fld "public_key" (.ofBytes w.publicKey) ++
  omitEmpty "quantum_public_key" w.quantumPublicKey.isEmpty (.ofBytes w.quantumPublicKey) ++
  omitEmpty "description" w.description.isEmpty (.ofStr w.description) ++
  fld "added_at" (.num w.addedAt)

def ofJson (j : Json) : Res Witness := do
  return {
    id := ← j.field "id" >>= getStr
    url := ← j.field "url" >>= getStr
    publicKey := ← j.field "public_key" >>= getBytes
    quantumPublicKey := ← j.field "quantum_public_key" >>= getBytes
    description := ← j.field "description" >>= getStr
    addedAt := ← j.field "added_at" >>= getInt }

def crossed (w : Witness) : Witness :=
  { w with id := coerce w.id, url := coerce w.url, description := coerce w.description }

lemma ofJson_toJson (w : Witness) : ofJson w.toJson = .ok w.crossed := by
  simp only [ofJson, toJson, field, lastField_append, lastField_fld,
    lastField_omitEmpty, String.reduceEq, ↓reduceIte, ok_bind, getStr_ofStr,
    getStr_omitted, getInt_num, getBytes_ofBytes, getBytes_omitted]
  rfl

end Witness

abbrev WitnessTable := Dict Bytes Doc

def registerWitness (fault : Option Err) (t : WitnessTable) : Option Witness → Res WitnessTable
  | none => .error (errorf "storage: witness id is required" [])
  | some w => do
    ensure (w.id ≠ []) (errorf "storage: witness id is required" [])
    ensure (w.url ≠ []) (errorf "storage: witness URL is required" [])
    ensure (w.publicKey.length = edPublicKeySize)
      (errorf "storage: witness public key wrong length %d" [.nat w.publicKey.length])
    match fault with
    | some e => .error (.err e)
    | none => return t.insert w.id (some w.toJson)

def listWitnesses (fault : Option Err) (t : WitnessTable) : Res (List Witness) :=
  match fault with
  | some e => .error (.err e)
  | none => (t.entries.mergeSort fun a b => Group.bytesLe a.1 b.1).mapM fun kv =>
      Doc.decode Witness.ofJson kv.2

def IsRecord (kv : (_ : Bytes) × Doc) : Prop :=
  ∃ w : Witness, w.id = kv.1 ∧ Utf8 w.id ∧ w.publicKey.length = edPublicKeySize ∧
    kv.2 = some w.toJson

def Registered (t : WitnessTable) : Prop := ∀ kv ∈ t.entries, IsRecord kv

lemma Registered.step {t t' : WitnessTable} (ht : Registered t) {fault : Option Err}
    {w : Witness} (hid : Utf8 w.id) (h : registerWitness fault t (some w) = .ok t') :
    Registered t' := by
  simp only [registerWitness, bind_ok, ensure_ok, exists_const] at h
  obtain ⟨-, -, hlen, h⟩ := h
  cases fault with
  | some => cases h
  | none =>
    cases h
    intro kv hkv
    rw [AList.entries_insert] at hkv
    rcases mem_cons.mp hkv with rfl | hkv
    · exact ⟨w, rfl, hid, hlen, rfl⟩
    · exact ht kv ((kerase_sublist _ _).subset hkv)

lemma registered_run {fault : Witness → Option Err} {ws : List Witness}
    (hid : ∀ w ∈ ws, Utf8 w.id) {t : WitnessTable}
    (h : ws.foldlM (fun t w => registerWitness (fault w) t (some w)) ∅ = .ok t) :
    Registered t := by
  have run : ∀ (ws : List Witness) (t₀ : WitnessTable), (∀ w ∈ ws, Utf8 w.id) → Registered t₀ →
      ws.foldlM (fun t w => registerWitness (fault w) t (some w)) t₀ = .ok t → Registered t := by
    intro ws
    induction ws with
    | nil =>
      rintro t₀ - ht₀ ⟨⟩
      exact ht₀
    | cons w ws ih =>
      intro t₀ hid ht₀ h
      simp only [foldlM_cons, bind_ok] at h
      obtain ⟨t₁, hstep, h⟩ := h
      exact ih t₁ (fun x hx => hid x (mem_cons_of_mem _ hx))
        (ht₀.step (hid w mem_cons_self) hstep) h
  exact run ws ∅ hid (fun kv hkv => by cases hkv) h

end Storage

namespace Core

open Storage (Witness)

/-- The registered witnesses: distinct IDs, and keys that `ed25519.Verify` takes. -/
structure Cohort where
  witnesses : List Witness
  nodup : (witnesses.map Witness.id).Nodup
  keys : ∀ w ∈ witnesses, w.publicKey.length = edPublicKeySize

lemma mapM_records {l : List ((_ : Bytes) × Doc)} (h : ∀ kv ∈ l, Storage.IsRecord kv) :
    ∃ ws, (l.mapM fun kv => Doc.decode Witness.ofJson kv.2) = .ok ws ∧
      ws.map Witness.id = l.map Sigma.fst ∧ ∀ w ∈ ws, w.publicKey.length = edPublicKeySize := by
  induction l with
  | nil => exact ⟨[], rfl, rfl, by simp⟩
  | cons kv l ih =>
    obtain ⟨w, hid, hutf8, hlen, hdoc⟩ := h kv mem_cons_self
    obtain ⟨ws, hws, hids, hkeys⟩ := ih fun x hx => h x (mem_cons_of_mem _ hx)
    have hdecode : Doc.decode Witness.ofJson kv.2 = .ok w.crossed := by
      rw [hdoc, Doc.decode, Witness.ofJson_toJson]
    refine ⟨w.crossed :: ws, ?_, ?_, ?_⟩
    · rw [mapM_cons, hdecode, ok_bind, hws]
      rfl
    · rw [map_cons, map_cons, hids, ← hid, Witness.crossed, coerce_of_utf8 hutf8]
    · intro x hx
      rcases mem_cons.mp hx with rfl | hx
      · exact hlen
      · exact hkeys x hx

lemma listWitnesses_ok {t : Storage.WitnessTable} (h : Storage.Registered t) :
    ∃ ws : Cohort, Storage.listWitnesses none t = .ok ws.witnesses := by
  let sorted := t.entries.mergeSort fun a b => Group.bytesLe a.1 b.1
  have hperm : sorted.Perm t.entries := mergeSort_perm _ _
  obtain ⟨ws, hws, hids, hkeys⟩ := mapM_records fun kv hkv => h kv (hperm.subset hkv)
  refine ⟨⟨ws, ?_, hkeys⟩, hws⟩
  rw [hids]
  exact (hperm.map Sigma.fst).nodup_iff.mpr t.nodupKeys

/-! ## `GatherWitnessSignatures` -/

def requestCosign : Except Err (Option WitnessSig) → Except Err WitnessSig
  | .error e => .error e
  | .ok none => .error (.errorf "empty signature in response" [])
  | .ok (some sig) => .ok sig

structure Gathered where
  status : Dict Bytes (Option Err)
  checkpoint : Checkpoint

section
variable (C : Crypto)

def validateWitnessSig (c : Checkpoint) (sig : WitnessSig) (witnesses : List Witness) : Res Unit :=
  match witnesses.find? fun w => w.id = sig.witnessID with
  | none => .error (errorf "unknown witness id %q" [.bytes sig.witnessID])
  | some w => do
    ensure (sig.publicKey = w.publicKey)
      (errorf "witness returned a public key different from the one we trust" [])
    C.checkEd w.publicKey c.canonicalForWitness sig.signature
      (errorf "witness signature does not verify" [])

def receive (witnesses : List Witness) (endpoint : Witness → Except Err (Option WitnessSig))
    (g : Gathered) (w : Witness) : Res Gathered :=
  match requestCosign (endpoint w) with
  | .error e => .ok { g with status := g.status.insert w.id (some e) }
  | .ok sig =>
    match validateWitnessSig C g.checkpoint sig witnesses with
    | .error (.panic p) => .error (.panic p)
    | .error (.err e) =>
      .ok { g with status := g.status.insert w.id (some (.wrap "returned sig invalid: %w" [] e)) }
    | .ok () => .ok {
        status := g.status.insert w.id none
        checkpoint := { g.checkpoint with witnesses := g.checkpoint.witnesses ++ [some sig] } }

/-- `GatherWitnessSignatures` after the list of the witnesses. The answers come in through a
channel, in the order `arrival`. -/
def gather (witnesses : List Witness) (endpoint : Witness → Except Err (Option WitnessSig))
    (arrival : List Witness) (c : Checkpoint) : Res Gathered :=
  if witnesses = [] then .ok ⟨∅, c⟩
  else arrival.foldlM (receive C witnesses endpoint) ⟨∅, c⟩

def accepted (witnesses : List Witness) (endpoint : Witness → Except Err (Option WitnessSig))
    (c : Checkpoint) (w : Witness) : Option WitnessSig :=
  match endpoint w with
  | .ok (some sig) => if validateWitnessSig C c sig witnesses = .ok () then some sig else none
  | _ => none

end

variable {C : Crypto} {ws : Cohort} {endpoint : Witness → Except Err (Option WitnessSig)}
  {c : Checkpoint}

lemma validateWitnessSig_ok {sig : WitnessSig} :
    validateWitnessSig C c sig ws.witnesses = .ok () ↔ ∃ w ∈ ws.witnesses,
      w.id = sig.witnessID ∧ sig.publicKey = w.publicKey ∧
      C.EdValid w.publicKey c.canonicalForWitness sig.signature := by
  unfold validateWitnessSig
  cases hfind : ws.witnesses.find? fun w => w.id = sig.witnessID with
  | none =>
    simp only [reduceCtorEq, false_iff]
    rintro ⟨w, hw, hid, -⟩
    exact absurd (find?_eq_none.mp hfind w hw) (by simp [hid])
  | some w =>
    have hw := mem_of_find?_eq_some hfind
    have hid : w.id = sig.witnessID := by simpa using find?_some hfind
    simp only [bind_ok, ensure_ok, exists_const, Crypto.checkEd_ok]
    constructor
    · rintro ⟨hkey, hvalid⟩
      exact ⟨w, hw, hid, hkey, hvalid⟩
    · rintro ⟨x, hx, hxid, hkey, hvalid⟩
      -- IDs are distinct, so the witness that was found is the one that is meant
      have heq : x = w := inj_on_of_nodup_map ws.nodup hx hw (hxid.trans hid.symm)
      exact heq ▸ ⟨hkey, hvalid⟩

lemma noPanic_validateWitnessSig (c : Checkpoint) (sig : WitnessSig) :
    NoPanic (validateWitnessSig C c sig ws.witnesses) := by
  unfold validateWitnessSig
  cases hfind : ws.witnesses.find? fun w => w.id = sig.witnessID with
  | none => exact noPanic_errorf _ _
  | some w => simp [ws.keys w (mem_of_find?_eq_some hfind)]

lemma accepted_eq_some {w : Witness} {sig : WitnessSig} :
    accepted C ws.witnesses endpoint c w = some sig ↔
      endpoint w = .ok (some sig) ∧ validateWitnessSig C c sig ws.witnesses = .ok () := by
  unfold accepted
  split
  · rename_i sig' hsig
    by_cases hval : validateWitnessSig C c sig' ws.witnesses = .ok ()
    · rw [if_pos hval, hsig]
      constructor
      · rintro ⟨⟩
        exact ⟨rfl, hval⟩
      · rintro ⟨⟨⟩, -⟩
        rfl
    · rw [if_neg hval, hsig]
      constructor
      · rintro ⟨⟩
      · rintro ⟨⟨⟩, h⟩
        exact absurd h hval
  · rename_i hnot
    simp only [reduceCtorEq, false_iff]
    exact fun h => hnot sig h.1

def cosigned (c : Checkpoint) (sigs : List WitnessSig) : Checkpoint :=
  { c with witnesses := c.witnesses ++ sigs.map some }

lemma cosigned_nil (c : Checkpoint) : cosigned c [] = c := by simp [cosigned]

lemma cosigned_cosigned (c : Checkpoint) (sigs sigs' : List WitnessSig) :
    cosigned (cosigned c sigs) sigs' = cosigned c (sigs ++ sigs') := by
  simp [cosigned]

lemma accepted_cosigned (c : Checkpoint) (sigs : List WitnessSig) :
    accepted C ws.witnesses endpoint (cosigned c sigs) = accepted C ws.witnesses endpoint c := rfl

lemma receive_eq (g : Gathered) (w : Witness) :
    ∃ status, receive C ws.witnesses endpoint g w = .ok ⟨status,
      cosigned g.checkpoint (accepted C ws.witnesses endpoint g.checkpoint w).toList⟩ := by
  unfold receive accepted
  cases hend : endpoint w with
  | error => exact ⟨_, by simp only [requestCosign, Option.toList_none, cosigned_nil]; rfl⟩
  | ok o =>
    cases o with
    | none => exact ⟨_, by simp only [requestCosign, Option.toList_none, cosigned_nil]; rfl⟩
    | some sig =>
      simp only [requestCosign]
      cases hval : validateWitnessSig C g.checkpoint sig ws.witnesses with
      | ok => exact ⟨_, by simp only [if_true]; rfl⟩
      | error f =>
        cases f with
        | panic p => exact absurd hval (noPanic_validateWitnessSig g.checkpoint sig p)
        | err =>
          exact ⟨_, by simp only [reduceCtorEq, if_false, Option.toList_none, cosigned_nil]; rfl⟩

lemma receives_eq (arrival : List Witness) (g : Gathered) :
    ∃ status, arrival.foldlM (receive C ws.witnesses endpoint) g = .ok ⟨status,
      cosigned g.checkpoint
        (arrival.filterMap (accepted C ws.witnesses endpoint g.checkpoint))⟩ := by
  induction arrival generalizing g with
  | nil => exact ⟨g.status, by rw [filterMap_nil, cosigned_nil]; rfl⟩
  | cons w arrival ih =>
    obtain ⟨status, hstep⟩ := @receive_eq C ws endpoint g w
    obtain ⟨status', hrun⟩ := ih ⟨status,
      cosigned g.checkpoint (accepted C ws.witnesses endpoint g.checkpoint w).toList⟩
    refine ⟨status', ?_⟩
    rw [foldlM_cons, hstep, ok_bind, hrun, accepted_cosigned, cosigned_cosigned, filterMap_cons]
    cases accepted C ws.witnesses endpoint g.checkpoint w with
    | none => rfl
    | some => rfl

/-- **What all answers add**: the accepted signatures, in the order of their arrival. -/
theorem gather_eq {arrival : List Witness} (harrival : arrival.Perm ws.witnesses)
    (c : Checkpoint) : ∃ status, gather C ws.witnesses endpoint arrival c = .ok ⟨status,
      cosigned c (arrival.filterMap (accepted C ws.witnesses endpoint c))⟩ := by
  unfold gather
  by_cases hnil : ws.witnesses = []
  · rw [hnil] at harrival
    rw [if_pos hnil, harrival.eq_nil, filterMap_nil, cosigned_nil]
    exact ⟨∅, rfl⟩
  · rw [if_neg hnil]
    exact receives_eq arrival ⟨∅, c⟩

/-- **The step of the log's machine is this one**, for the signatures that are accepted. -/
theorem gather_refines {arrival : List Witness} (harrival : arrival.Perm ws.witnesses)
    (c : Checkpoint) {r : Reads}
    (hr : r.witnesses = arrival.filterMap (accepted C ws.witnesses endpoint c)) :
    ∃ status, gather C ws.witnesses endpoint arrival c =
      .ok ⟨status, gatherWitnessSignatures r c⟩ := by
  rw [show gatherWitnessSignatures r c = cosigned c r.witnesses from rfl, hr]
  exact gather_eq harrival c

/-! ## Counting the signatures -/

structure Counted (C : Crypto) (ws : Cohort) (endpoint : Witness → Except Err (Option WitnessSig))
    (c c' : Checkpoint) : Prop where
  own : ∀ o ∈ c'.witnesses, ∃ sig, o = some sig ∧ ∃ w ∈ ws.witnesses, sig.witnessID = w.id ∧
    endpoint w = .ok (some sig) ∧ sig.publicKey = w.publicKey ∧
    C.EdValid w.publicKey c.canonicalForWitness sig.signature ∧
    (w.quantumPublicKey ≠ [] →
      C.DilValid w.quantumPublicKey c.canonicalForWitness sig.quantumSignature)
  once : (c'.witnesses.reduceOption.map WitnessSig.witnessID).Nodup
  count : c'.witnesses.length = (c'.witnesses.reduceOption.map WitnessSig.witnessID).toFinset.card

def OwnStrength (C : Crypto) (c : Checkpoint) (w : Witness) (sig : WitnessSig) : Prop :=
  sig.witnessID = w.id ∧ (w.quantumPublicKey ≠ [] →
    C.DilValid w.quantumPublicKey c.canonicalForWitness sig.quantumSignature)

lemma cosigned_reduceOption (c : Checkpoint) (sigs : List WitnessSig) :
    (cosigned c sigs).witnesses.reduceOption = c.witnesses.reduceOption ++ sigs := by
  simp [cosigned, List.reduceOption, filterMap_map]

section
variable {arrival : List Witness} (harrival : arrival.Perm ws.witnesses)
include harrival

lemma eq_of_once
    (h : ((arrival.filterMap (accepted C ws.witnesses endpoint c)).map
      WitnessSig.witnessID).Nodup) {w w' : Witness} (hw : w ∈ ws.witnesses)
    (hw' : w' ∈ ws.witnesses) {sig sig' : WitnessSig}
    (hsig : accepted C ws.witnesses endpoint c w = some sig)
    (hsig' : accepted C ws.witnesses endpoint c w' = some sig')
    (hid : sig.witnessID = sig'.witnessID) : w = w' := by
  by_contra hne
  rw [List.Nodup, pairwise_map, pairwise_filterMap] at h
  have hsymm : Std.Symm fun a b : Witness => ∀ x, accepted C ws.witnesses endpoint c a = some x →
      ∀ y, accepted C ws.witnesses endpoint c b = some y → x.witnessID ≠ y.witnessID :=
    ⟨fun a b hab x hx y hy => (hab y hy x hx).symm⟩
  exact h.forall (harrival.symm.subset hw) (harrival.symm.subset hw') hne sig hsig sig' hsig' hid

/-- **Witnesses that are counted rightly gave their own answers**, to a checkpoint without any. -/
theorem Counted.own_strength
    (h : Counted C ws endpoint c
      (cosigned c (arrival.filterMap (accepted C ws.witnesses endpoint c)))) :
    c.witnesses = [] ∧ ∀ w ∈ ws.witnesses, ∀ sig, endpoint w = .ok (some sig) →
      validateWitnessSig C c sig ws.witnesses = .ok () → OwnStrength C c w sig := by
  have honce := h.once
  rw [cosigned_reduceOption, map_append, nodup_append] at honce
  obtain ⟨-, honce, hdisjoint⟩ := honce
  -- a signature that is counted is accepted from the endpoint of the witness it names
  have hown : ∀ o ∈ (cosigned c (arrival.filterMap
      (accepted C ws.witnesses endpoint c))).witnesses, ∃ sig, o = some sig ∧
      ∃ w ∈ ws.witnesses, accepted C ws.witnesses endpoint c w = some sig ∧
        OwnStrength C c w sig := by
    intro o ho
    obtain ⟨sig, rfl, w, hw, hid, hend, hkey, hvalid, hquantum⟩ := h.own o ho
    exact ⟨sig, rfl, w, hw, accepted_eq_some.mpr ⟨hend, validateWitnessSig_ok.mpr
      ⟨w, hw, hid.symm, hkey, hvalid⟩⟩, hid, hquantum⟩
  constructor
  · rw [eq_nil_iff_forall_not_mem]
    intro o ho
    obtain ⟨sig, rfl, w, hw, hacc, -⟩ := hown o (mem_append_left _ ho)
    refine hdisjoint sig.witnessID (mem_map_of_mem (reduceOption_mem_iff.mpr ho))
      sig.witnessID (mem_map_of_mem ?_) rfl
    exact mem_filterMap.mpr ⟨w, harrival.symm.subset hw, hacc⟩
  · intro w hw sig hend hval
    have hacc := accepted_eq_some.mpr ⟨hend, hval⟩
    have hmem : sig ∈ arrival.filterMap (accepted C ws.witnesses endpoint c) :=
      mem_filterMap.mpr ⟨w, harrival.symm.subset hw, hacc⟩
    obtain ⟨sig', hsig', w', hw', hacc', hstrength⟩ :=
      hown (some sig) (mem_append_right _ (mem_map_of_mem hmem))
    cases hsig'
    rw [eq_of_once harrival honce hw hw' hacc hacc' rfl]
    exact hstrength

lemma counted_of_ownStrength (hnil : c.witnesses = [])
    (hown : ∀ w ∈ ws.witnesses, ∀ sig, endpoint w = .ok (some sig) →
      validateWitnessSig C c sig ws.witnesses = .ok () → OwnStrength C c w sig) :
    Counted C ws endpoint c
      (cosigned c (arrival.filterMap (accepted C ws.witnesses endpoint c))) := by
  have honce : ((arrival.filterMap (accepted C ws.witnesses endpoint c)).map
      WitnessSig.witnessID).Nodup := by
    have hids : (arrival.map Witness.id).Nodup := (harrival.map _).nodup_iff.mpr ws.nodup
    rw [List.Nodup, pairwise_map] at hids
    rw [List.Nodup, pairwise_map, pairwise_filterMap]
    refine hids.imp_of_mem fun {a b} ha hb hne x hx y hy => ?_
    obtain ⟨hend, hval⟩ := accepted_eq_some.mp hx
    obtain ⟨hend', hval'⟩ := accepted_eq_some.mp hy
    rw [(hown a (harrival.subset ha) x hend hval).1, (hown b (harrival.subset hb) y hend' hval').1]
    exact hne
  have hall : (cosigned c (arrival.filterMap (accepted C ws.witnesses endpoint c))).witnesses =
      (arrival.filterMap (accepted C ws.witnesses endpoint c)).map some := by
    simp [cosigned, hnil]
  have hreduce : (cosigned c (arrival.filterMap
      (accepted C ws.witnesses endpoint c))).witnesses.reduceOption =
      arrival.filterMap (accepted C ws.witnesses endpoint c) := by
    rw [cosigned_reduceOption, hnil]
    rfl
  refine ⟨fun o ho => ?_, ?_, ?_⟩
  · rw [hall] at ho
    obtain ⟨sig, hsig, rfl⟩ := mem_map.mp ho
    obtain ⟨w, hw, hacc⟩ := mem_filterMap.mp hsig
    have hw := harrival.subset hw
    obtain ⟨hend, hval⟩ := accepted_eq_some.mp hacc
    obtain ⟨hid, hquantum⟩ := hown w hw sig hend hval
    obtain ⟨x, hx, hxid, hkey, hvalid⟩ := validateWitnessSig_ok.mp hval
    have hsame : x = w := inj_on_of_nodup_map ws.nodup hx hw (hxid.trans hid)
    subst hsame
    exact ⟨sig, rfl, x, hw, hid, hend, hkey, hvalid, hquantum⟩
  · rw [hreduce]
    exact honce
  · rw [hreduce, toFinset_card_of_nodup honce, hall]
    simp

end

/-- **The signatures are one for each witness at registered strength exactly when the checkpoint
came without any and each accepted answer is the witness's own, at its strength.** -/
theorem gathered_iff (C : Crypto) (ws : Cohort)
    (endpoint : Witness → Except Err (Option WitnessSig)) (arrival : List Witness)
    (harrival : arrival.Perm ws.witnesses) (c : Checkpoint) :
    ∃ g, gather C ws.witnesses endpoint arrival c = .ok g ∧
      (Counted C ws endpoint c g.checkpoint ↔ c.witnesses = [] ∧
        ∀ w ∈ ws.witnesses, ∀ sig, endpoint w = .ok (some sig) →
          validateWitnessSig C c sig ws.witnesses = .ok () → OwnStrength C c w sig) := by
  obtain ⟨status, hgather⟩ := @gather_eq C ws endpoint arrival harrival c
  exact ⟨_, hgather, Counted.own_strength harrival,
    fun ⟨hnil, hown⟩ => counted_of_ownStrength harrival hnil hown⟩

def firstWitness : Witness where
  id := lit "w"
  url := lit "http://w"
  publicKey := List.replicate 32 7

def hybridWitness : Witness where
  id := lit "x"
  url := lit "http://x"
  publicKey := List.replicate 32 8
  quantumPublicKey := List.replicate quantumPublicKeySize 9

def sampleCohort : Cohort where
  witnesses := [firstWitness, hybridWitness]
  nodup := by decide
  keys := by decide

def honestEndpoint (w : Witness) : Except Err (Option WitnessSig) :=
  if w = firstWitness then .ok (some soloWitnessSig) else .error (.errorf "network: %w" [])

theorem gathered_iff_honest : ∃ g,
    gather .sample sampleCohort.witnesses honestEndpoint [hybridWitness, firstWitness]
        soloCheckpoint = .ok g ∧
      Counted .sample sampleCohort honestEndpoint soloCheckpoint g.checkpoint := by
  obtain ⟨g, hg, hiff⟩ := gathered_iff .sample sampleCohort honestEndpoint
    [hybridWitness, firstWitness] (List.Perm.swap _ _ _) soloCheckpoint
  refine ⟨g, hg, hiff.mpr ⟨rfl, fun w hw sig hend _ => ?_⟩⟩
  rcases mem_cons.mp hw with rfl | hw
  · cases hend
    exact ⟨rfl, fun h => absurd rfl h⟩
  · cases mem_singleton.mp hw
    cases hend

def classicalHalf : WitnessSig :=
  { soloWitnessSig with
    witnessID := lit "x"
    publicKey := List.replicate 32 8
    signature := Crypto.sample.edSign (List.replicate 32 8) soloCheckpoint.canonicalForWitness }

/-- **One witness counted twice, and a hybrid witness counted for its classical half.** The endpoint
of the second witness answers with the signature of the first, or without a Dilithium signature. -/
theorem relayed_signature_counted :
    (gather .sample sampleCohort.witnesses (fun _ => .ok (some soloWitnessSig))
        sampleCohort.witnesses soloCheckpoint).map (fun g => g.checkpoint.witnesses) =
      .ok [some soloWitnessSig, some soloWitnessSig] ∧
    (gather .sample sampleCohort.witnesses
        (fun w => if w = hybridWitness then .ok (some classicalHalf) else .ok none)
        sampleCohort.witnesses soloCheckpoint).map (fun g => g.checkpoint.witnesses) =
      .ok [some classicalHalf] ∧
    classicalHalf.quantumSignature = [] ∧ hybridWitness.quantumPublicKey ≠ [] := by
  decide +kernel

end Core

end Stele
