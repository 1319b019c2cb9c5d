import Stele.Keys.KeyFile
import Stele.Witness.Gossip

/-!
# Witnesses that gossip

Any number of witnesses, each the machine of `Stele.Witness.NoDoubleCosign`, and the `gossipOne`
calls between them. A call goes from the fetch of the peer's statement over the record of it and the
comparison to the record of a fork (`Stage`); other actions of any witness may come between two
steps of a call.
-/

namespace Stele.Witness

open Lib List Option

structure Identity where
  id : Bytes
  priv : Keys.EdKey
  qPriv : Option Bytes := none

inductive Stage
  | fetch
  | record (stmt : SignedSeen)
  | compare (stmt : SignedSeen)
  | flag (size : Nat)
  | done
  | lost

structure Call (ι : Type) where
  caller : ι
  target : ι
  peer : Peer
  op : WatchedOperator
  stage : Stage := .fetch
  theirs : Option (Dict Nat Bytes) := none
  ours : Option (Dict Nat Bytes) := none

/-- What a step of a call reads: whether an answer of the peer is lost, the clock, the peer's
checkpoint, and the outcomes of the saves. -/
structure CallReads where
  unreachable : Bool := false
  now : Int := 0
  theirs : Option Checkpoint := none
  forks : Write := .done
  attestations : Write := .done

structure Net (ι : Type) where
  world : ι → World
  calls : List (Call ι)

def Net.init (ι : Type) : Net ι := ⟨fun _ => Witness.init {}, []⟩

def Server.rootsOf (s : Server) (origin : Bytes) : Dict Nat Bytes := (s.seen.lookup origin).getD ∅

def World.locked (w : World) (p : Proc) (body : Server → Dir → Server × Dir) : World :=
  { w with
    dir := (body p.server w.dir).2
    proc := some { p with server := (body p.server w.dir).1 } }

section
variable {ι : Type}

/-- The next step of a call: the caller's world and the call afterwards. A step that needs the lock
waits while a `Cosign` call holds it. -/
def Call.advance (C : Crypto) (r : CallReads) (world : ι → World) (c : Call ι) : World × Call ι :=
  let w := world c.caller
  match w.proc, c.stage with
  | none, _ => (w, c)
  | some _, .fetch =>
    match (world c.target).proc with
    | none => (w, { c with stage := .done })
    | some q =>
      -- the handler of `/witness/v0/seen-signed` refuses an empty origin
      if r.unreachable = true ∨ c.op.origin = [] then (w, { c with stage := .done })
      else
        (w, { c with
          stage := .record (q.server.issueSignedSeen C r.now c.op.origin).reread
          theirs := some (q.server.rootsOf c.op.origin) })
  | some p, .record stmt =>
    if Server.acceptsStatement C c.peer stmt = .ok true then
      if p.cosigning.isSome then (w, c)
      else
        (w.locked p fun s d =>
          let out := s.recordAttestation c.peer.id stmt r.now r.forks r.attestations d
          (out.1, out.2.1),
        { c with stage := .compare stmt })
    else (w, { c with stage := .done })
  | some p, .compare stmt =>
    (w, { c with
      stage := match p.server.findFork c.op.origin stmt.seen with
        | none => .done
        | some (size, _) => .flag size
      ours := some (p.server.rootsOf c.op.origin) })
  | some p, .flag size =>
    if p.cosigning.isSome then (w, c)
    else
      (w.locked p fun s d =>
        s.recordFork (s.peerFork r.now c.op.origin size r.theirs c.peer.id) r.forks d,
      { c with stage := .done })
  | some _, .done => (w, c)
  | some _, .lost => (w, c)

def Call.crash [DecidableEq ι] (i : ι) (c : Call ι) : Call ι :=
  if c.caller = i then { c with stage := .lost } else c

inductive NetAction (ι : Type)
  | act (i : ι) (a : Action)
  | call (caller target : ι) (peer : Peer) (op : WatchedOperator)
  | advance (k : Nat) (r : CallReads)

def Net.step [DecidableEq ι] (C : Crypto) (n : Net ι) : NetAction ι → Net ι
  | .act i .crash =>
    ⟨Function.update n.world i (Witness.step C (n.world i) .crash), n.calls.map (Call.crash i)⟩
  | .act i a => { n with world := Function.update n.world i (Witness.step C (n.world i) a) }
  | .call caller target peer op => { n with calls := n.calls ++ [{ caller, target, peer, op }] }
  | .advance k r =>
    match n.calls[k]? with
    | none => n
    | some c =>
      let out := c.advance C r n.world
      ⟨Function.update n.world c.caller out.1, n.calls.set k out.2⟩

/-! ## Honest witnesses -/

/-- The caller's record of the peer is right. It came in a JSON request, so its ID is UTF-8, as is
the origin of the operator. -/
structure Peered (C : Crypto) (ident : ι → Identity) (target : ι) (peer : Peer)
    (op : WatchedOperator) : Prop where
  id : peer.id = (ident target).id
  publicKey : peer.publicKey = C.edPublic (ident target).priv
  utf8 : Utf8 peer.id
  origin : Utf8 op.origin

/-- What an action has to meet: a witness is restarted as itself, checkpoints to cosign are UTF-8,
peers are who they are recorded to be, and the forks are saved. -/
def NetAction.Honest (C : Crypto) (ident : ι → Identity) : NetAction ι → Prop
  | .act i (.openServer id keys) =>
    id = (ident i).id ∧ ∀ k, keys = .ok k → k = ((ident i).priv.val, (ident i).qPriv)
  | .act _ a => a.IsUtf8
  | .call _ target peer op => Peered C ident target peer op
  | .advance _ r => r.forks.err = none

end

/-! ## What a witness keeps -/

def HexRoots (m : Seen) : Prop := ∀ o n r, m.get2 o n = some r → ∃ b, r = hex b

def Server.Is (s : Server) (ident : Identity) : Prop :=
  s.id = ident.id ∧ s.priv = ident.priv.val

structure World.Sound (ident : Identity) (w : World) : Prop where
  inv : w.Inv
  diskHex : HexRoots w.dir.seen
  memHex : ∀ p, w.proc = some p → HexRoots p.server.seen
  ident : ∀ p, w.proc = some p → p.server.Is ident

variable {C : Crypto} {w : World}

section
variable {ident : Identity} {p : Proc} {d : Dir}

lemma HexRoots.sub {m m' : Seen} (h : HexRoots m') (hsub : m.Sub m') : HexRoots m :=
  fun o n r hr => h o n r (hsub hr)

lemma HexRoots.put2 {m : Seen} (h : HexRoots m) (o : Bytes) (n : Nat) (b : Bytes) :
    HexRoots (m.put2 o n (hex b)) := by
  intro o' n' r hr
  rcases Dict.get2_put2_cases hr with ⟨-, -, rfl⟩ | hold
  · exact ⟨b, rfl⟩
  · exact h o' n' r hold

lemma step_is (a : Action) (h : p.server.Is ident) : (p.step C d a).1.server.Is ident := by
  have hacts : Acts C p d a (p.step C d a) := step_acts a
  generalize p.step C d a = out at hacts ⊢
  cases hacts with
  | _ =>
    subst_vars
    exact h

lemma World.Sound.init : (Witness.init {}).Sound ident where
  inv := init_inv nofun
  diskHex o n r hr := by cases hr
  memHex p hp := by cases hp
  ident p hp := by cases hp

lemma step_hex (hinv : p.Inv d) (hd : d.seen.Utf8Keys) (hmem : HexRoots p.server.seen)
    (hdisk : HexRoots d.seen) (a : Action) :
    HexRoots (p.step C d a).1.server.seen ∧ HexRoots (p.step C d a).2.1.seen := by
  cases step_seen (C := C) (p := p) (d := d) a with
  | same hseen _ hdir =>
    rw [hseen, hdir]
    exact ⟨hmem, hdisk⟩
  | note now save c chain group _ _ _ hserver hdir =>
    rw [hserver, hdir]
    exact ⟨hmem.put2 _ _ _, hdisk⟩
  | saveSeen save hserver hdir =>
    rw [hserver, hdir]
    exact ⟨hmem, hmem.sub (saveSeen_between hinv hd save).2.2⟩
  | saveCheckpoints save c hphase hserver hdir =>
    rw [hserver, hdir]
    exact ⟨hmem, hdisk⟩

lemma World.Sound.step (h : w.Sound ident) {a : Action} (ha : a.IsUtf8)
    (hopen : ∀ id keys, a = .openServer id keys → id = ident.id ∧
      ∀ k, keys = .ok k → k = (ident.priv.val, ident.qPriv)) :
    (Witness.step C w a).Sound ident := by
  have hinv : (Witness.step C w a).Inv := step_inv h.inv ha
  cases step_cases C w a with
  | idle heq =>
    rw [heq]
    exact h
  | crash hproc hdir =>
    refine ⟨hinv, by rw [hdir]; exact h.diskHex, fun p hp => ?_, fun p hp => ?_⟩
    · rw [hproc] at hp
      cases hp
    · rw [hproc] at hp
      cases hp
  | opened id keys s hact hproc hdir hnew =>
    obtain ⟨k, hk, rfl⟩ := newServer_ok hnew
    obtain ⟨rfl, hkeys⟩ := hopen id keys hact
    cases hkeys k hk
    refine ⟨hinv, by rw [hdir]; exact h.diskHex, fun p hp => ?_, fun p hp => ?_⟩
    · rw [hproc] at hp
      cases hp
      exact h.diskHex
    · rw [hproc] at hp
      cases hp
      exact ⟨rfl, rfl⟩
  | acted p hbefore hproc hdir =>
    obtain ⟨hmem, hdisk⟩ :=
      step_hex (C := C) (h.inv.proc p hbefore) h.inv.utf8 (h.memHex p hbefore) h.diskHex a
    refine ⟨hinv, by rw [hdir]; exact hdisk, fun p' hp' => ?_, fun p' hp' => ?_⟩
    · rw [hproc] at hp'
      cases hp'
      exact hmem
    · rw [hproc] at hp'
      cases hp'
      exact step_is a (h.ident p hbefore)

lemma World.Sound.locked (h : w.Sound ident) (hp : w.proc = some p)
    {body : Server → Dir → Server × Dir}
    (hbody : (body p.server w.dir).1.seen = p.server.seen ∧
      (body p.server w.dir).2.seen = w.dir.seen ∧
      ((body p.server w.dir).1.Is ident ↔ p.server.Is ident)) :
    (w.locked p body).Sound ident := by
  obtain ⟨hseen, hdir, his⟩ := hbody
  have hkeeps : Keeps w.dir ({ p with server := (body p.server w.dir).1 },
      (body p.server w.dir).2, none) :=
    .frame (h.inv.proc p hp) h.inv.utf8 hseen rfl hdir
  refine ⟨⟨hkeeps.utf8, fun q hq => ?_, fun r hr => ?_⟩, ?_, fun q hq => ?_, fun q hq => ?_⟩
  · cases hq
    exact hkeeps.inv
  · exact (h.inv.released r hr).mono hkeeps.sub
  · show HexRoots (body p.server w.dir).2.seen
    rw [hdir]
    exact h.diskHex
  · cases hq
    show HexRoots (body p.server w.dir).1.seen
    rw [hseen]
    exact h.memHex p hp
  · cases hq
    exact his.mpr (h.ident p hp)

lemma get2_rootsOf {s : Server} {origin : Bytes} {n : Nat} :
    (s.rootsOf origin).lookup n = s.seen.get2 origin n := by
  unfold Server.rootsOf Dict.get2
  cases s.seen.lookup origin with
  | none => rfl
  | some => rfl

lemma issueSignedSeen_reread {s : Server} {origin : Bytes} (hid : Utf8 s.id)
    (horigin : Utf8 origin) (hhex : HexRoots s.seen) (now : Int) :
    (s.issueSignedSeen C now origin).reread = s.issueSignedSeen C now origin := by
  have hroots : Dict.mapValues coerce (s.rootsOf origin) = s.rootsOf origin := by
    refine Dict.mapValues_eq_self fun n r hr => ?_
    rw [get2_rootsOf] at hr
    obtain ⟨b, rfl⟩ := hhex origin n r hr
    exact coerce_of_utf8 (utf8_hex b)
  have hkey : coerce (keyIDOf C (C.edPublic s.priv)) = keyIDOf C (C.edPublic s.priv) :=
    coerce_of_utf8 (utf8_hex _)
  unfold Server.rootsOf at hroots
  simp only [SignedSeen.reread, Server.issueSignedSeen, coerce_of_utf8 hid, coerce_of_utf8 horigin,
    hkey, hroots]

/-- **The statement of an honest peer passes the checks of `gossipOne`.** -/
theorem issueSignedSeen_accepted (hC : Keys.Correct C) {s : Server} (hs : s.Is ident)
    {peer : Peer} (hid : peer.id = ident.id) (hkey : peer.publicKey = C.edPublic ident.priv.val)
    (now : Int) (origin : Bytes) :
    Server.acceptsStatement C peer (s.issueSignedSeen C now origin) = .ok true := by
  rw [acceptsStatement_ok]
  obtain ⟨hsid, hspriv⟩ := hs
  refine ⟨?_, ?_, ?_⟩
  · have hsigned := hC.edVerify_edSign ident.priv (s.issueSignedSeen C now origin).canonical
    have hlen := hC.edPublic_length ident.priv
    have hpub : (s.issueSignedSeen C now origin).publicKey = C.edPublic ident.priv.val := by
      simp only [Server.issueSignedSeen, hspriv]
    have hsig : (s.issueSignedSeen C now origin).signature =
        C.edSign ident.priv.val (s.issueSignedSeen C now origin).canonical := by
      simp only [Server.issueSignedSeen, hspriv]
      rfl
    simp only [SignedSeen.verify, bind_ok, ensure_ok, exists_const, Crypto.checkEd_ok, hpub, hsig]
    exact ⟨hlen, C.edVerify_length hsigned, hlen, hsigned⟩
  · rw [hkey]
    simp only [Server.issueSignedSeen, hspriv]
  · rw [hid, ← hsid]
    rfl

end

/-! ## The network -/

section
variable {ι : Type} {ident : ι → Identity}

/-- What holds of a call: the statement it has fetched is accepted and shows the peer's roots. -/
def Call.Inv (C : Crypto) (c : Call ι) : Prop :=
  match c.stage with
  | .fetch => c.theirs = none
  | .record stmt | .compare stmt =>
    Server.acceptsStatement C c.peer stmt = .ok true ∧ c.theirs = some stmt.seen
  | .flag _ => c.theirs ≠ none → c.ours ≠ none
  | _ => True

structure Net.Inv (C : Crypto) (ident : ι → Identity) (n : Net ι) : Prop where
  world : ∀ i, (n.world i).Sound (ident i)
  peered : ∀ c ∈ n.calls, Peered C ident c.target c.peer c.op
  calls : ∀ c ∈ n.calls, c.Inv C

lemma Net.init_inv : (Net.init ι).Inv C ident where
  world i := .init
  peered c hc := by cases hc
  calls c hc := by cases hc

inductive Advance (C : Crypto) (r : CallReads) (world : ι → World) (c : Call ι) :
    World → Call ι → Prop
  | wait : Advance C r world c (world c.caller) c
  | unfetched (stage : c.stage = .fetch) :
    Advance C r world c (world c.caller) { c with stage := .done }
  | fetched {q : Proc} (stage : c.stage = .fetch) (target : (world c.target).proc = some q) :
    Advance C r world c (world c.caller)
      { c with
        stage := .record (q.server.issueSignedSeen C r.now c.op.origin).reread
        theirs := some (q.server.rootsOf c.op.origin) }
  | refused {stmt : SignedSeen} (stage : c.stage = .record stmt)
      (refused : Server.acceptsStatement C c.peer stmt ≠ .ok true) :
    Advance C r world c (world c.caller) { c with stage := .done }
  | recorded {p : Proc} {stmt : SignedSeen} (proc : (world c.caller).proc = some p)
      (stage : c.stage = .record stmt) (accepted : Server.acceptsStatement C c.peer stmt = .ok true)
      (free : p.cosigning = none) :
    Advance C r world c
      ((world c.caller).locked p fun s d =>
        let out := s.recordAttestation c.peer.id stmt r.now r.forks r.attestations d
        (out.1, out.2.1))
      { c with stage := .compare stmt }
  | agreed {p : Proc} {stmt : SignedSeen} (proc : (world c.caller).proc = some p)
      (stage : c.stage = .compare stmt) (found : p.server.findFork c.op.origin stmt.seen = none) :
    Advance C r world c (world c.caller)
      { c with stage := .done, ours := some (p.server.rootsOf c.op.origin) }
  | forked {p : Proc} {stmt : SignedSeen} {size : Nat} {roots : Bytes × Bytes}
      (proc : (world c.caller).proc = some p) (stage : c.stage = .compare stmt)
      (found : p.server.findFork c.op.origin stmt.seen = some (size, roots)) :
    Advance C r world c (world c.caller)
      { c with stage := .flag size, ours := some (p.server.rootsOf c.op.origin) }
  | flagged {p : Proc} {size : Nat} (proc : (world c.caller).proc = some p)
      (stage : c.stage = .flag size) (free : p.cosigning = none) :
    Advance C r world c
      ((world c.caller).locked p fun s d =>
        s.recordFork (s.peerFork r.now c.op.origin size r.theirs c.peer.id) r.forks d)
      { c with stage := .done }

lemma advance_cases (C : Crypto) (r : CallReads) (world : ι → World) (c : Call ι) :
    Advance C r world c (c.advance C r world).1 (c.advance C r world).2 := by
  cases hproc : (world c.caller).proc with
  | none =>
    simp only [Call.advance, hproc]
    exact .wait
  | some p =>
    cases hstage : c.stage with
    | fetch =>
      cases htarget : (world c.target).proc with
      | none =>
        simp only [Call.advance, hproc, hstage, htarget]
        exact .unfetched hstage
      | some =>
        simp only [Call.advance, hproc, hstage, htarget]
        split
        · exact .unfetched hstage
        · exact .fetched hstage htarget
    | record stmt =>
      by_cases hacc : Server.acceptsStatement C c.peer stmt = .ok true
      · cases hfree : p.cosigning with
        | some =>
          simp only [Call.advance, hproc, hstage, hacc, hfree, isSome_some, ↓reduceIte]
          exact .wait
        | none =>
          simp only [Call.advance, hproc, hstage, hacc, hfree, isSome_none, ↓reduceIte,
            Bool.false_eq_true]
          exact .recorded hproc hstage hacc hfree
      · simp only [Call.advance, hproc, hstage, hacc, ↓reduceIte]
        exact .refused hstage hacc
    | compare stmt =>
      cases hfound : p.server.findFork c.op.origin stmt.seen with
      | none =>
        simp only [Call.advance, hproc, hstage, hfound]
        exact .agreed hproc hstage hfound
      | some =>
        simp only [Call.advance, hproc, hstage, hfound]
        exact .forked hproc hstage hfound
    | flag =>
      cases hfree : p.cosigning with
      | some =>
        simp only [Call.advance, hproc, hstage, hfree, isSome_some, ↓reduceIte]
        exact .wait
      | none =>
        simp only [Call.advance, hproc, hstage, hfree, isSome_none, ↓reduceIte, Bool.false_eq_true]
        exact .flagged hproc hstage hfree
    | done =>
      simp only [Call.advance, hproc, hstage]
      exact .wait
    | lost =>
      simp only [Call.advance, hproc, hstage]
      exact .wait

section
variable {r : CallReads} {world : ι → World} {c c' : Call ι}

lemma Advance.same (h : Advance C r world c w c') :
    c'.caller = c.caller ∧ c'.target = c.target ∧ c'.peer = c.peer ∧ c'.op = c.op := by
  cases h <;> exact ⟨rfl, rfl, rfl, rfl⟩

lemma Advance.sound (h : Advance C r world c w c') {ident : Identity}
    (hw : (world c.caller).Sound ident) : w.Sound ident := by
  cases h with
  | recorded hproc hstage hacc hfree =>
    rename_i p stmt
    refine hw.locked hproc ?_
    obtain ⟨_, _, _, _, hs, hd⟩ := recordAttestation_frame c.peer.id stmt r.now r.forks
      r.attestations p.server (world c.caller).dir
    simp only [hs, hd, true_and]
    exact Iff.rfl
  | flagged hproc hstage hfree => exact hw.locked hproc ⟨rfl, rfl, Iff.rfl⟩
  | _ => exact hw

lemma Advance.inv (hC : Keys.Correct C) (h : Advance C r world c w c')
    (hworld : ∀ i, (world i).Sound (ident i)) (hpeered : Peered C ident c.target c.peer c.op)
    (hc : c.Inv C) : c'.Inv C := by
  unfold Call.Inv at hc ⊢
  cases h with
  | wait => exact hc
  | fetched hstage htarget =>
    rename_i q
    have his := (hworld c.target).ident q htarget
    have hid : Utf8 q.server.id := by
      rw [his.1, ← hpeered.id]
      exact hpeered.utf8
    simp only
    rw [issueSignedSeen_reread hid hpeered.origin ((hworld c.target).memHex q htarget)]
    exact ⟨issueSignedSeen_accepted hC his hpeered.id hpeered.publicKey _ _, rfl⟩
  | recorded hproc hstage =>
    rw [hstage] at hc
    exact hc
  | forked => exact fun _ => some_ne_none _
  | _ => trivial

end

variable [DecidableEq ι]

lemma sound_update {world : ι → World} (hworld : ∀ i, (world i).Sound (ident i)) {i : ι}
    {w : World} (hw : w.Sound (ident i)) (j : ι) :
    (Function.update world i w j).Sound (ident j) := by
  by_cases hji : j = i
  · subst hji
    rw [Function.update_self]
    exact hw
  · rw [Function.update_of_ne hji]
    exact hworld j

lemma Call.crash_inv {c : Call ι} (hc : c.Inv C) (i : ι) : (c.crash i).Inv C ∧
    (c.crash i).target = c.target ∧ (c.crash i).peer = c.peer ∧ (c.crash i).op = c.op := by
  unfold Call.crash
  split
  · exact ⟨trivial, rfl, rfl, rfl⟩
  · exact ⟨hc, rfl, rfl, rfl⟩

lemma Net.Inv.step (hC : Keys.Correct C) {n : Net ι} (h : n.Inv C ident) {a : NetAction ι}
    (ha : a.Honest C ident) : (n.step C a).Inv C ident := by
  cases a with
  | act i a =>
    have hsound : (Witness.step C (n.world i) a).Sound (ident i) := by
      refine (h.world i).step ?_ ?_
      · cases a <;> first | exact ha | trivial
      · rintro id keys rfl
        exact ha
    have hnet : Net.Inv C ident
        { n with world := Function.update n.world i (Witness.step C (n.world i) a) } :=
      ⟨sound_update h.world hsound, h.peered, h.calls⟩
    cases a with
    | crash =>
      refine ⟨hnet.world, fun c hc => ?_, fun c hc => ?_⟩
      · obtain ⟨c₀, hc₀, rfl⟩ := mem_map.mp hc
        obtain ⟨-, htarget, hpeer, hop⟩ := Call.crash_inv (h.calls c₀ hc₀) i
        rw [htarget, hpeer, hop]
        exact h.peered c₀ hc₀
      · obtain ⟨c₀, hc₀, rfl⟩ := mem_map.mp hc
        exact (Call.crash_inv (h.calls c₀ hc₀) i).1
    | _ => exact hnet
  | call =>
    refine ⟨h.world, fun c hc => ?_, fun c hc => ?_⟩
    · rcases mem_append.mp hc with hc | hc
      · exact h.peered c hc
      · rw [mem_singleton.mp hc]
        exact ha
    · rcases mem_append.mp hc with hc | hc
      · exact h.calls c hc
      · rw [mem_singleton.mp hc]
        exact rfl
  | advance k r =>
    cases hk : n.calls[k]? with
    | none =>
      simp only [Net.step, hk]
      exact h
    | some c =>
      simp only [Net.step, hk]
      have hmem := mem_of_getElem? hk
      have hadv := advance_cases C r n.world c
      obtain ⟨-, htarget, hpeer, hop⟩ := hadv.same
      refine ⟨sound_update h.world (hadv.sound (h.world c.caller)), fun c' hc' => ?_,
        fun c' hc' => ?_⟩
      · rcases mem_or_eq_of_mem_set hc' with hc' | rfl
        · exact h.peered c' hc'
        · rw [htarget, hpeer, hop]
          exact h.peered c hmem
      · rcases mem_or_eq_of_mem_set hc' with hc' | rfl
        · exact h.calls c' hc'
        · exact hadv.inv hC h.world (h.peered c hmem) (h.calls c hmem)

lemma net_inv (hC : Keys.Correct C) {as : List (NetAction ι)} (has : ∀ a ∈ as, a.Honest C ident) :
    (run (Net.step C) (Net.init ι) as).Inv C ident :=
  run_invariant (fun _ _ ha h => h.step hC ha) Net.init_inv has

end

end Stele.Witness
