import Stele.Witness.Network
import Stele.Witness.Statements

/-!
# Gossip to its end: alerts and cross-attestations

`gossipOne` from the recorded statement on. Its parts take the lock one after the other, and calls
about other peers and origins, and everything else that the witness does, come in between. The
comparison is about the origin that was asked for; the cross-attestation is about the origin that
the statement names. The callback gets what is recorded for the origin when it is called.
-/

namespace Stele.Witness

open Lib List Option AList

/-! ## `issueCrossAttestation` -/

def overlap (mine theirs : Dict Nat Bytes) : Dict Nat Bytes :=
  ⟨theirs.entries.filter fun e => mine.lookup e.1 = some e.2,
    theirs.nodupKeys.sublist filter_sublist⟩

lemma lookup_overlap {mine theirs : Dict Nat Bytes} {n : Nat} {r : Bytes} :
    (overlap mine theirs).lookup n = some r ↔
      mine.lookup n = some r ∧ theirs.lookup n = some r := by
  rw [← mem_def, mem_lookup_iff, overlap, mem_filter, decide_eq_true_iff,
    ← mem_lookup_iff, and_comm]
  rfl

def Server.issueCrossAttestation (C : Crypto) (now : Int) (peer : Peer) (stmt : SignedSeen)
    (s : Server) : Option (CrossAttestation × Bytes) :=
  let common := overlap (s.rootsOf stmt.origin) stmt.seen
  if common.entries = [] then none
  else
    let att : CrossAttestation := {
      attesterID := s.id
      attesterKey := C.edPublic s.priv
      peerID := peer.id
      peerKey := peer.publicKey
      origin := stmt.origin
      overlappingSizes := common
      issuedAt := now
      peerStatementIssuedAt := stmt.issuedAt }
    some (att, C.edSign s.priv att.canonical)

/-! ## The calls -/

/-- Where a `gossipOne` call stands once the statement is recorded. -/
inductive Turn
  | compare
  | flag (size : Nat)
  | alert (size : Nat)
  | attest (compared : Dict Nat Bytes)

structure GossipCall where
  peer : Peer
  op : WatchedOperator
  stmt : SignedSeen
  turn : Turn := .compare

abbrev Triple := Bytes × Nat × Bytes

def GossipCall.at (c : GossipCall) (size : Nat) : Triple := (c.op.origin, size, c.peer.id)

def ForkEvidence.triple (ev : ForkEvidence) : Triple := (ev.origin, ev.size, ev.theirPeerID)

structure Comparison where
  call : GossipCall
  mine : Dict Nat Bytes
  found : Option Nat

def Comparison.report (x : Comparison) : Option Triple := x.found.map x.call.at

/-- The peer's statement disagreed with the witness's own view there. -/
def Comparison.Disagrees (x : Comparison) (t : Triple) : Prop :=
  t = x.call.at t.2.1 ∧ ∃ r r', x.mine.lookup t.2.1 = some r ∧
    x.call.stmt.seen.lookup t.2.1 = some r' ∧ r ≠ r'

structure Attested where
  call : GossipCall
  compared : Dict Nat Bytes
  mine : Dict Nat Bytes
  att : CrossAttestation
  signature : Bytes

/-- A running witness, its files, the calls in progress, and what the calls have done so far: the
comparisons, the callbacks, each with what its call had reported, and the attestations. -/
structure Gossiping where
  proc : Proc
  dir : Dir
  calls : List GossipCall := []
  comparisons : List Comparison := []
  alerts : List (Triple × ForkEvidence) := []
  attested : List Attested := []

namespace Gossiping

inductive Action
  | other (a : Witness.Action)
  | fetched (peer : Peer) (op : WatchedOperator) (stmt : SignedSeen) (r : CallReads)
  | resume (i : Nat) (r : CallReads)

/-- The next step of call `c`; `rest` are the other calls. A step under the lock waits while a
`Cosign` call holds it; the recorded roots are read outside of the lock. -/
def advance (C : Crypto) (r : CallReads) (c : GossipCall) (rest : List GossipCall)
    (s : Gossiping) : Gossiping :=
  match c.turn with
  | .compare =>
    let found := (s.proc.server.findFork c.op.origin c.stmt.seen).map Prod.fst
    let mine := s.proc.server.rootsOf c.op.origin
    { s with
      calls := { c with turn := found.elim (.attest mine) .flag } :: rest
      comparisons := ⟨c, mine, found⟩ :: s.comparisons }
  | .flag size =>
    if s.proc.cosigning.isSome then s
    else
      let out := s.proc.server.recordFork
        (s.proc.server.peerFork r.now c.op.origin size r.theirs c.peer.id) r.forks s.dir
      { s with
        proc := { s.proc with server := out.1 }
        dir := out.2
        calls := { c with turn := .alert size } :: rest }
  | .alert size =>
    if s.proc.cosigning.isSome then s
    else
      let ev := s.proc.server.forks.lookup c.op.origin
      { s with
        calls := rest
        alerts := (ev.toList.map fun ev => (c.at size, ev)) ++ s.alerts }
  | .attest compared =>
    let mine := s.proc.server.rootsOf c.stmt.origin
    let att := s.proc.server.issueCrossAttestation C r.now c.peer c.stmt
    { s with
      calls := rest
      attested := (att.toList.map fun att => ⟨c, compared, mine, att.1, att.2⟩) ++ s.attested }

def step (C : Crypto) (s : Gossiping) : Action → Gossiping
  | .other a =>
    let out := s.proc.step C s.dir a
    { s with proc := out.1, dir := out.2.1 }
  | .fetched peer op stmt r =>
    if Server.acceptsStatement C peer stmt = .ok true ∧ s.proc.cosigning = none then
      let out := s.proc.server.recordAttestation peer.id stmt r.now r.forks r.attestations s.dir
      { s with
        proc := { s.proc with server := out.1 }
        dir := out.2.1
        calls := { peer, op, stmt } :: s.calls }
    else s
  | .resume i r =>
    match s.calls[i]? with
    | none => s
    | some c => s.advance C r c (s.calls.eraseIdx i)

variable {C : Crypto} {s : Gossiping} {i : Nat} {c : GossipCall}

lemma calls_perm (h : s.calls[i]? = some c) : (c :: s.calls.eraseIdx i).Perm s.calls := by
  obtain ⟨hi, rfl⟩ := List.getElem?_eq_some_iff.mp h
  exact List.getElem_cons_eraseIdx_perm hi

/-! ## What an attestation says -/

def Agree (mine theirs : Dict Nat Bytes) : Prop :=
  ∀ n r r', mine.lookup n = some r → theirs.lookup n = some r' → r = r'

structure CallOk (C : Crypto) (c : GossipCall) : Prop where
  accepted : Server.acceptsStatement C c.peer c.stmt = .ok true
  compared : ∀ mine, c.turn = .attest mine → Agree mine c.stmt.seen

/-- **What an attestation says**: it is signed by the witness, it refers to a statement of the peer
about its origin, and its sizes are those at which the roots are the same; there is one. -/
structure Says (C : Crypto) (x : Attested) : Prop where
  accepted : Server.acceptsStatement C x.call.peer x.call.stmt = .ok true
  signed : ∃ priv, x.att.attesterKey = C.edPublic priv ∧ x.signature = C.edSign priv x.att.canonical
  peer : x.att.peerID = x.call.peer.id ∧ x.att.peerKey = x.call.peer.publicKey
  origin : x.att.origin = x.call.stmt.origin
  issuedAt : x.att.peerStatementIssuedAt = x.call.stmt.issuedAt
  sizes : ∀ n r, x.att.overlappingSizes.lookup n = some r ↔
    x.mine.lookup n = some r ∧ x.call.stmt.seen.lookup n = some r
  nonempty : ∃ n r, x.att.overlappingSizes.lookup n = some r

structure AttestInv (C : Crypto) (s : Gossiping) : Prop where
  calls : ∀ c ∈ s.calls, CallOk C c
  attested : ∀ x ∈ s.attested, Says C x ∧ Agree x.compared x.call.stmt.seen

lemma get2_rootsOf (s : Server) (origin : Bytes) (n : Nat) :
    s.seen.get2 origin n = (s.rootsOf origin).lookup n := by
  unfold Dict.get2 Server.rootsOf
  cases s.seen.lookup origin <;> simp

lemma issueCrossAttestation_some {now : Int} {peer : Peer} {stmt : SignedSeen} {s : Server}
    {out : CrossAttestation × Bytes} (hacc : Server.acceptsStatement C peer stmt = .ok true)
    (h : s.issueCrossAttestation C now peer stmt = some out) (hpeer : c.peer = peer)
    (hstmt : c.stmt = stmt) (compared : Dict Nat Bytes) :
    Says C ⟨c, compared, s.rootsOf stmt.origin, out.1, out.2⟩ := by
  subst hpeer hstmt
  simp only [Server.issueCrossAttestation] at h
  split at h
  · cases h
  · rename_i hne
    cases h
    refine ⟨hacc, ⟨s.priv, rfl, rfl⟩, ⟨rfl, rfl⟩, rfl, rfl, fun n r => lookup_overlap, ?_⟩
    obtain ⟨⟨n, r⟩, hmem⟩ := exists_mem_of_ne_nil _ hne
    exact ⟨n, r, mem_lookup_iff.mpr hmem⟩

lemma AttestInv.advance (h : AttestInv C s) (r : CallReads) (hc : s.calls[i]? = some c) :
    AttestInv C (s.advance C r c (s.calls.eraseIdx i)) := by
  have hok := h.calls c (mem_of_getElem? hc)
  have hrest : ∀ c' ∈ s.calls.eraseIdx i, CallOk C c' := fun c' hc' =>
    h.calls c' (mem_of_mem_eraseIdx hc')
  unfold Gossiping.advance
  split
  · rename_i hturn
    refine ⟨forall_mem_cons.mpr ⟨⟨hok.accepted, fun mine hmine n r r' hr hr' => ?_⟩, hrest⟩,
      h.attested⟩
    cases hfork : s.proc.server.findFork c.op.origin c.stmt.seen with
    | some => simp [hfork] at hmine
    | none =>
      simp only [hfork, map_none, elim_none, Turn.attest.injEq] at hmine
      subst hmine
      exact findFork_eq_none hfork ((get2_rootsOf _ _ _).trans hr) hr'
  · split
    · exact h
    · exact ⟨forall_mem_cons.mpr ⟨⟨hok.accepted, nofun⟩, hrest⟩, h.attested⟩
  · split
    · exact h
    · exact ⟨hrest, h.attested⟩
  · rename_i compared hturn
    refine ⟨hrest, fun x hx => ?_⟩
    rcases mem_append.mp hx with hx | hx
    · obtain ⟨out, hout, rfl⟩ := mem_map.mp hx
      exact ⟨issueCrossAttestation_some hok.accepted (mem_toList.mp hout) rfl rfl compared,
        hok.compared compared hturn⟩
    · exact h.attested x hx

lemma AttestInv.step (h : AttestInv C s) (a : Action) : AttestInv C (s.step C a) := by
  cases a with
  | other => exact ⟨h.calls, h.attested⟩
  | fetched =>
    simp only [Gossiping.step]
    split
    · rename_i hacc
      exact ⟨forall_mem_cons.mpr ⟨⟨hacc.1, nofun⟩, h.calls⟩, h.attested⟩
    · exact h
  | resume i r =>
    simp only [Gossiping.step]
    split
    · exact h
    · exact h.advance r ‹_›

/-- **Every cross-attestation says what it should, and the truth** when the roots it was issued for
are those that were compared: the statement is about the origin that was asked for, and no root
of it was added in between. -/
theorem gossip_attests (C : Crypto) (p : Proc) (d : Dir) (as : List Action) (x : Attested)
    (hx : x ∈ (run (step C) ⟨p, d, [], [], [], []⟩ as).attested) :
    Says C x ∧ (x.mine = x.compared → Agree x.mine x.call.stmt.seen) := by
  have hinit : AttestInv C ⟨p, d, [], [], [], []⟩ := ⟨by simp, by simp⟩
  have hinv : AttestInv C (run (step C) ⟨p, d, [], [], [], []⟩ as) :=
    run_invariant (I := AttestInv C) (fun s a _ h => h.step a) hinit
      (fun _ _ => trivial : ∀ a ∈ as, True)
  obtain ⟨hsaid, hagree⟩ := hinv.attested x hx
  exact ⟨hsaid, fun h => h ▸ hagree⟩

/-! ## Callbacks -/

def pending (c : GossipCall) : List Triple :=
  match c.turn with
  | .flag size => [c.at size]
  | .alert size => [c.at size]
  | _ => []

def reported (s : Gossiping) : List Triple := s.comparisons.filterMap Comparison.report

def callbacks (s : Gossiping) (t : Triple) : Nat := s.alerts.countP (·.2.triple = t)

/-- Every report is passed on or pending, a recorded fork stays recorded, and a comparison reports
one of its disagreements when there is one. -/
structure AlertInv (s : Gossiping) : Prop where
  passed : (reported s).Perm (s.alerts.map Prod.fst ++ s.calls.flatMap pending)
  recorded : ∀ c ∈ s.calls, ∀ size, c.turn = .alert size →
    (s.proc.server.forks.lookup c.op.origin).isSome = true
  comparisons : ∀ x ∈ s.comparisons, (∀ t ∈ x.report, x.Disagrees t) ∧
    (x.report = none → ∀ t, ¬x.Disagrees t)

def KeepsForks (forks forks' : Dict Bytes ForkEvidence) : Prop :=
  ∀ origin, (forks.lookup origin).isSome = true → (forks'.lookup origin).isSome = true

lemma keepsForks_insert (forks : Dict Bytes ForkEvidence) (origin : Bytes) (f : ForkEvidence) :
    KeepsForks forks (forks.insert origin f) := by
  intro o ho
  by_cases heq : o = origin
  · subst heq
    rw [lookup_insert]
    rfl
  · rwa [lookup_insert_ne heq]

lemma keepsForks_step {p : Proc} {d : Dir} {a : Witness.Action} (ha : ∀ o w, a ≠ .clearFork o w) :
    KeepsForks p.server.forks (p.step C d a).1.server.forks := by
  cases step_forks (C := C) (p := p) (d := d) a with
  | same mem => exact mem ▸ fun _ h => h
  | raise f w why mem => exact mem ▸ keepsForks_insert _ _ f
  | clear o w action => exact absurd action (ha o w)

lemma keepsForks_recordAttestation (s : Server) (peerID : Bytes) (ss : SignedSeen) (now : Int)
    (wf wa : Write) (d : Dir) :
    KeepsForks s.forks (s.recordAttestation peerID ss now wf wa d).1.forks := by
  unfold Server.recordAttestation
  cases (s.latest.get2 peerID ss.origin).bind (·.findContradiction ss) with
  | none => exact fun _ h => h
  | some => exact keepsForks_insert _ _ _

lemma comparison_spec {s : Server} : let x : Comparison :=
      ⟨c, s.rootsOf c.op.origin, (s.findFork c.op.origin c.stmt.seen).map Prod.fst⟩
    (∀ t ∈ x.report, x.Disagrees t) ∧ (x.report = none → ∀ t, ¬x.Disagrees t) := by
  intro x
  cases hfork : s.findFork c.op.origin c.stmt.seen with
  | none =>
    have hreport : x.report = none := by simp [x, Comparison.report, hfork]
    refine ⟨fun t ht => ?_, fun _ t => ?_⟩
    · rw [hreport] at ht
      cases ht
    · rintro ⟨-, r, r', hr, hr', hne⟩
      exact hne (findFork_eq_none hfork ((get2_rootsOf _ _ _).trans hr) hr')
  | some found =>
    have hreport : x.report = some (c.at found.1) := by simp [x, Comparison.report, hfork]
    refine ⟨fun t ht => ?_, fun hnone => ?_⟩
    · rw [hreport] at ht
      cases ht
      obtain ⟨hours, htheirs, hne⟩ := findFork_some hfork
      exact ⟨rfl, _, _, (get2_rootsOf _ _ _).symm.trans hours, htheirs, hne⟩
    · rw [hreport] at hnone
      cases hnone

lemma AlertInv.advance (h : AlertInv s) (r : CallReads) (hc : s.calls[i]? = some c) :
    AlertInv (s.advance C r c (s.calls.eraseIdx i)) := by
  have hmem := mem_of_getElem? hc
  have hrest : ∀ c' ∈ s.calls.eraseIdx i, c' ∈ s.calls := fun c' => mem_of_mem_eraseIdx
  have hpassed : (reported s).Perm
      (s.alerts.map Prod.fst ++ (pending c ++ (s.calls.eraseIdx i).flatMap pending)) :=
    h.passed.trans (((calls_perm hc).symm.flatMap_right pending).append_left _)
  unfold Gossiping.advance
  split
  · rename_i hturn
    simp only [pending, hturn, nil_append] at hpassed
    refine ⟨?_, forall_mem_cons.mpr ⟨?_, fun c' hc' => h.recorded c' (hrest c' hc')⟩,
      forall_mem_cons.mpr ⟨comparison_spec, h.comparisons⟩⟩
    · cases hfork : s.proc.server.findFork c.op.origin c.stmt.seen with
      | none => simpa [reported, filterMap_cons, Comparison.report, pending] using hpassed
      | some =>
        simpa [reported, Comparison.report, hfork, pending, GossipCall.at] using
          (hpassed.cons _).trans perm_middle.symm
    · cases s.proc.server.findFork c.op.origin c.stmt.seen <;> simp
  · rename_i size hturn
    split
    · exact h
    · simp only [pending, hturn] at hpassed
      refine ⟨hpassed, forall_mem_cons.mpr ⟨fun _ _ => ?_, fun c' hc' n hn =>
        keepsForks_insert _ _ _ _ (h.recorded c' (hrest c' hc') n hn)⟩, h.comparisons⟩
      simp [Server.recordFork, Server.peerFork]
  · rename_i size hturn
    split
    · exact h
    · obtain ⟨ev, hev⟩ := isSome_iff_exists.mp (h.recorded c hmem size hturn)
      simp only [pending, hturn] at hpassed
      refine ⟨?_, fun c' hc' => h.recorded c' (hrest c' hc'), h.comparisons⟩
      simpa [reported, hev] using hpassed.trans perm_middle
  · rename_i hturn
    simp only [pending, hturn, nil_append] at hpassed
    exact ⟨hpassed, fun c' hc' => h.recorded c' (hrest c' hc'), h.comparisons⟩

lemma AlertInv.step (h : AlertInv s) {a : Action} (ha : ∀ o w, a ≠ .other (.clearFork o w)) :
    AlertInv (s.step C a) := by
  cases a with
  | other a =>
    have hkeeps : KeepsForks s.proc.server.forks (s.proc.step C s.dir a).1.server.forks :=
      keepsForks_step fun o w heq => ha o w (congrArg _ heq)
    exact ⟨h.passed, fun c hc n hn => hkeeps _ (h.recorded c hc n hn), h.comparisons⟩
  | fetched peer op stmt r =>
    simp only [Gossiping.step]
    split
    · exact ⟨h.passed, forall_mem_cons.mpr ⟨nofun, fun c hc n hn =>
        keepsForks_recordAttestation _ _ _ _ _ r.attestations _ _ (h.recorded c hc n hn)⟩,
        h.comparisons⟩
    · exact h
  | resume i r =>
    simp only [Gossiping.step]
    split
    · exact h
    · exact h.advance r ‹_›

def twoLogs : Proc where
  server := {
    id := lit "a"
    priv := List.replicate 32 1
    qPriv := none
    operators := ∅
    seen := [⟨lit "x", [⟨1, [1]⟩].toAList⟩, ⟨lit "y", [⟨1, [1]⟩, ⟨2, [2]⟩].toAList⟩].toAList
    checkpoints := ∅
    peers := ∅
    forks := ∅
    latest := ∅ }
  cosigning := none
  tasks := []

def peerNamed (id : Bytes) (k : UInt8) : Peer :=
  { id := id, url := [], publicKey := List.replicate 32 k }

def peerSays (peer : Peer) (origin : Bytes) (seen : Dict Nat Bytes) : SignedSeen :=
  let ss : SignedSeen := ⟨peer.id, peer.publicKey, [], origin, seen, 0, []⟩
  { ss with signature := Crypto.sample.edSign peer.publicKey ss.canonical }

def hear (peer : Peer) (asked : Bytes) (stmt : SignedSeen) : Action :=
  .fetched peer { origin := asked, rootPublicKey := [] } stmt {}

def callOf (peer : Peer) (asked : Bytes) (stmt : SignedSeen) : List Action :=
  [hear peer asked stmt, .resume 0 {}, .resume 0 {}, .resume 0 {}]

def after (as : List Action) : Gossiping := run (step .sample) ⟨twoLogs, {}, [], [], [], []⟩ as

def peerB : Peer := peerNamed (lit "b") 2

def peerC : Peer := peerNamed (lit "c") 3

theorem gossip_attests_agreed : ∃ x ∈ (after (callOf peerB (lit "x")
    (peerSays peerB (lit "x") [⟨1, [1]⟩].toAList))).attested, Agree x.mine x.call.stmt.seen := by
  obtain ⟨x, hx, hsame⟩ : ∃ x ∈ (after (callOf peerB (lit "x")
      (peerSays peerB (lit "x") [⟨1, [1]⟩].toAList))).attested,
      x.mine.entries = x.compared.entries := by
    decide +kernel
  exact ⟨x, hx, (gossip_attests _ _ _ _ x hx).2 (AList.ext hsame)⟩

/-- Asked for `x`, the peer answers about `y` and disagrees there at size 2. -/
theorem attests_a_disagreement : ∃ x ∈ (after (callOf peerB (lit "x")
      (peerSays peerB (lit "y") [⟨1, [1]⟩, ⟨2, [9]⟩].toAList))).attested,
    x.att.origin = lit "y" ∧ x.mine.lookup 2 = some [2] ∧
    x.call.stmt.seen.lookup 2 = some [9] := by
  decide +kernel

def forked (peer : Peer) : SignedSeen := peerSays peer (lit "x") [⟨1, [9]⟩].toAList

end Gossiping

end Stele.Witness
