import Stele.Lib.Runs
import Stele.Verify.Verifier
import Stele.Witness.Server

/-!
# A witness never cosigns two roots

The runs of one witness: calls of its exported functions, gossip, crashes and restarts. `Cosign`
holds the lock from its first check to its return, so it is taken apart at its saves, where a crash
can stop it (`Phase`). `CompareWithPeer` takes the lock twice and reads the recorded roots in
between; what it has found waits in `Proc.tasks` meanwhile.
-/

namespace Stele.Witness

open Lib

inductive Phase
  | saveSeen
  | saveCheckpoints
  | sign
  deriving DecidableEq, Repr

inductive Task
  | compare (origin : Bytes) (peerSeen : Dict Nat Bytes) (peerID : Bytes)
  | recordFork (origin : Bytes) (size : Nat) (peerID : Bytes)

structure Proc where
  server : Server
  cosigning : Option (Phase × Checkpoint)
  tasks : List Task

structure World where
  dir : Dir
  proc : Option Proc
  released : List (Checkpoint × WitnessSig)

def init (d : Dir) : World := ⟨d, none, []⟩

/-- One step of a run, with what it reads: the clock, the peers' answers and the outcomes of the
saves. -/
inductive Action
  | openServer (id : Bytes) (keys : Except Err (Bytes × Option Bytes))
  | crash
  | cosign (now : Int) (w : Write) (c : Option Checkpoint) (chain : Option Chain)
    (group : Option Group)
  | save (w : Write)
  | sign (now : Int)
  | addOperator (op : Option WatchedOperator) (w : Write)
  | addPeer (p : Option Peer) (now : Int) (w : Write)
  | clearFork (origin : Bytes) (w : Write)
  | compareWithPeer (origin : Bytes) (peerSeen : Dict Nat Bytes) (peer : Peer)
  | gossip (peer : Peer) (op : WatchedOperator) (reply : Except Err SignedSeen) (now : Int)
    (wf wa : Write)
  | resume (i : Nat) (now : Int) (theirs : Option Checkpoint) (w : Write)

def Action.IsUtf8 : Action → Prop
  | .cosign _ _ c _ _ => ∀ c' ∈ c, Utf8 c'.origin
  | _ => True

/-! ## Steps -/

namespace Proc

abbrev Out := Proc × Dir × Option (Checkpoint × WitnessSig)

def locked (p : Proc) (d : Dir) (tasks : List Task) (body : Server → Dir → Server × Dir) : Out :=
  match p.cosigning with
  | some _ => (p, d, none)
  | none => ({ p with server := (body p.server d).1, tasks }, (body p.server d).2, none)

def cosign (C : Crypto) (now : Int) (w : Write) (c : Option Checkpoint) (chain : Option Chain)
    (group : Option Group) (p : Proc) (d : Dir) : Out :=
  match p.cosigning with
  | some _ => (p, d, none)
  | none =>
    match p.server.beginCosign C now w c chain group d with
    | (s, d, .error _) => ({ p with server := s }, d, none)
    | (s, d, .ok c) => ({ p with server := s, cosigning := some (.saveSeen, c) }, d, none)

def save (w : Write) (p : Proc) (d : Dir) : Out :=
  match p.cosigning with
  | some (.saveSeen, c) =>
    ({ p with cosigning := if w.err = none then some (.saveCheckpoints, c) else none },
      d.saveSeen w p.server, none)
  | some (.saveCheckpoints, c) =>
    ({ p with cosigning := if w.err = none then some (.sign, c) else none },
      d.saveCheckpoints w p.server, none)
  | _ => (p, d, none)

def sign (C : Crypto) (now : Int) (p : Proc) (d : Dir) : Out :=
  match p.cosigning with
  | some (.sign, c) => ({ p with cosigning := none }, d, some (c, p.server.witnessSig C now c))
  | _ => (p, d, none)

def gossip (C : Crypto) (peer : Peer) (op : WatchedOperator) (reply : Except Err SignedSeen)
    (now : Int) (wf wa : Write) (p : Proc) (d : Dir) : Out :=
  match reply with
  | .error _ => (p, d, none)
  | .ok stmt =>
    if Server.acceptsStatement C peer stmt = .ok true then
      p.locked d (.compare op.origin stmt.seen peer.id :: p.tasks) fun s d =>
        let out := s.recordAttestation peer.id stmt now wf wa d
        (out.1, out.2.1)
    else (p, d, none)

def resume (i : Nat) (now : Int) (theirs : Option Checkpoint) (w : Write) (p : Proc) (d : Dir) :
    Out :=
  match p.tasks[i]? with
  | none => (p, d, none)
  | some (.compare origin peerSeen peerID) =>
    let found := match p.server.findFork origin peerSeen with
      | none => []
      | some (size, _) => [.recordFork origin size peerID]
    ({ p with tasks := found ++ p.tasks.eraseIdx i }, d, none)
  | some (.recordFork origin size peerID) =>
    p.locked d (p.tasks.eraseIdx i) fun s d =>
      s.recordFork (s.peerFork now origin size theirs peerID) w d

def step (C : Crypto) (p : Proc) (d : Dir) : Action → Out
  | .cosign now w c chain group => p.cosign C now w c chain group d
  | .save w => p.save w d
  | .sign now => p.sign C now d
  | .addOperator op w => p.locked d p.tasks fun s d =>
    let out := s.addOperator op w d
    (out.1, out.2.1)
  | .addPeer peer now w => p.locked d p.tasks fun s d =>
    let out := s.addPeer peer now w d
    (out.1, out.2.1)
  | .clearFork origin w => p.locked d p.tasks fun s d => s.clearFork origin w d
  | .compareWithPeer origin peerSeen peer =>
    ({ p with tasks := .compare origin peerSeen peer.id :: p.tasks }, d, none)
  | .gossip peer op reply now wf wa => p.gossip C peer op reply now wf wa d
  | .resume i now theirs w => p.resume i now theirs w d
  | .openServer _ _ => (p, d, none)
  | .crash => (p, d, none)

end Proc

namespace World

def openServer (id : Bytes) (keys : Except Err (Bytes × Option Bytes)) (w : World) : World :=
  match w.proc, newServer id keys w.dir with
  | none, .ok s => { w with proc := some ⟨s, none, []⟩ }
  | _, _ => w

def act (C : Crypto) (a : Action) (w : World) : World :=
  match w.proc with
  | none => w
  | some p =>
    let out := p.step C w.dir a
    ⟨out.2.1, some out.1, out.2.2.toList ++ w.released⟩

end World

def step (C : Crypto) (w : World) (a : Action) : World :=
  match a with
  | .openServer id keys => w.openServer id keys
  | .crash => { w with proc := none }
  | a => w.act C a

def cosignActions (r : Server.CosignReads) (c : Option Checkpoint) (chain : Option Chain)
    (group : Option Group) : List Action :=
  [.cosign r.now r.forks c chain group, .save r.seen, .save r.checkpoints, .sign r.now]

def releasedBy (c : Option Checkpoint) (res : Res WitnessSig) : List (Checkpoint × WitnessSig) :=
  match c, res with
  | some c, .ok sig => [(c, sig)]
  | _, _ => []

variable {C : Crypto}

lemma run_cosignActions {d : Dir} {p : Proc} {rel : List (Checkpoint × WitnessSig)}
    (hfree : p.cosigning = none) (r : Server.CosignReads) (c : Option Checkpoint)
    (chain : Option Chain) (group : Option Group) {s' : Server} {d' : Dir} {res : Res WitnessSig}
    (hout : p.server.cosign C r c chain group d = (s', d', res)) :
    run (step C) ⟨d, some p, rel⟩ (cosignActions r c chain group) =
      ⟨d', some { p with server := s' }, releasedBy c res ++ rel⟩ := by
  obtain ⟨s, ph, tasks⟩ := p
  simp only at hfree hout
  subst hfree
  rcases s.beginCosign_cases (C := C) r.now r.forks c chain group d with
     ⟨c, rfl, -, -, hbegin⟩ | ⟨s₁, d₁, e, hbegin, -⟩
  · simp only [Server.cosign, hbegin] at hout
    rcases r.seen.result_eq with ⟨herr, hres⟩ | ⟨e, herr, hres⟩
    · rcases r.checkpoints.result_eq with ⟨herr', hres'⟩ | ⟨e, herr', hres'⟩
      · simp only [hres, hres', Except.map, Prod.mk.injEq] at hout
        obtain ⟨rfl, rfl, rfl⟩ := hout
        simp [cosignActions, step, World.act, Proc.step, Proc.cosign, hbegin, Proc.save, herr,
          herr', Proc.sign, releasedBy]
      · simp only [hres, hres', Except.map, Prod.mk.injEq] at hout
        obtain ⟨rfl, rfl, rfl⟩ := hout
        simp [cosignActions, step, World.act, Proc.step, Proc.cosign, hbegin, Proc.save, herr,
          herr', Proc.sign, releasedBy]
    · simp only [hres, Prod.mk.injEq] at hout
      obtain ⟨rfl, rfl, rfl⟩ := hout
      simp [cosignActions, step, World.act, Proc.step, Proc.cosign, hbegin, Proc.save, herr,
        Proc.sign, releasedBy]
  · simp only [Server.cosign, hbegin, Prod.mk.injEq] at hout
    obtain ⟨rfl, rfl, rfl⟩ := hout
    simp [cosignActions, step, World.act, Proc.step, Proc.cosign, hbegin, Proc.save, Proc.sign,
      releasedBy]

/-! ## What an action does -/

inductive Acts (C : Crypto) (p : Proc) (d : Dir) : Action → Proc.Out → Prop
  | idle {a : Action} (tasks : List Task) : Acts C p d a ({ p with tasks }, d, none)
  | fork {now : Int} {w : Write} {c : Checkpoint} {chain : Option Chain} {group : Option Group}
      {existing : Bytes} (free : p.cosigning = none)
      (check : p.server.checkCosign C c chain group = .ok ())
      (conflict : p.server.conflict c = some existing) {out : Server × Dir}
      (recorded : out = p.server.recordFork
        { origin := c.origin, size := c.size, detectedAt := now,
          ourCheckpoint := p.server.checkpoints.get2 c.origin c.size,
          theirCheckpoint := some c } w d) :
    Acts C p d (.cosign now w (some c) chain group) ({ p with server := out.1 }, out.2, none)
  | note {now : Int} {w : Write} {c : Checkpoint} {chain : Option Chain} {group : Option Group}
      (free : p.cosigning = none) (check : p.server.checkCosign C c chain group = .ok ())
      (conflict : p.server.conflict c = none) :
    Acts C p d (.cosign now w (some c) chain group)
      ({ p with server := p.server.note c, cosigning := some (.saveSeen, c) }, d, none)
  | saveSeen {w : Write} {c : Checkpoint} (phase : p.cosigning = some (.saveSeen, c)) :
    Acts C p d (.save w)
      ({ p with cosigning := if w.err = none then some (.saveCheckpoints, c) else none },
        d.saveSeen w p.server, none)
  | saveCheckpoints {w : Write} {c : Checkpoint}
      (phase : p.cosigning = some (.saveCheckpoints, c)) :
    Acts C p d (.save w)
      ({ p with cosigning := if w.err = none then some (.sign, c) else none },
        d.saveCheckpoints w p.server, none)
  | sign {now : Int} {c : Checkpoint} (phase : p.cosigning = some (.sign, c)) :
    Acts C p d (.sign now)
      ({ p with cosigning := none }, d, some (c, p.server.witnessSig C now c))
  | addOperator {op : WatchedOperator} {w : Write} (free : p.cosigning = none) {s : Server}
      (added : s = { p.server with operators := p.server.operators.insert op.origin op }) :
    Acts C p d (.addOperator (some op) w) ({ p with server := s }, d.saveOperators w s, none)
  | addPeer {peer : Option Peer} {now : Int} {w : Write} (free : p.cosigning = none)
      (peers : Dict Bytes Peer) (files : List Peer) :
    Acts C p d (.addPeer peer now w)
      ({ p with server := { p.server with peers } }, { d with peers := files }, none)
  | clearFork {origin : Bytes} {w : Write} (free : p.cosigning = none) :
    Acts C p d (.clearFork origin w)
      ({ p with server := (p.server.clearFork origin w d).1 }, (p.server.clearFork origin w d).2,
        none)
  | heard {peer : Peer} {op : WatchedOperator} {stmt : SignedSeen} {now : Int} {wf wa : Write}
      (free : p.cosigning = none) (accepted : Server.acceptsStatement C peer stmt = .ok true)
      (consistent : (p.server.latest.get2 peer.id stmt.origin).bind
        (·.findContradiction stmt) = none) {s : Server} {tasks : List Task}
      (kept : s = { p.server with latest := p.server.latest.put2 peer.id stmt.origin stmt }) :
    Acts C p d (.gossip peer op (.ok stmt) now wf wa)
      ({ p with server := s, tasks }, d.saveAttestations wa s, none)
  | contradicted {peer : Peer} {op : WatchedOperator} {stmt prev : SignedSeen} {now : Int}
      {wf wa : Write} {size : Nat} (free : p.cosigning = none)
      (accepted : Server.acceptsStatement C peer stmt = .ok true)
      (latest : p.server.latest.get2 peer.id stmt.origin = some prev)
      (found : prev.findContradiction stmt = some size) {out : Server × Dir} {s : Server}
      {tasks : List Task}
      (recorded : out = p.server.recordFork
        { origin := stmt.origin, size, detectedAt := now, ourCheckpoint := none,
          theirCheckpoint := none, theirPeerID := peer.id } wf d)
      (kept : s = { out.1 with latest := out.1.latest.put2 peer.id stmt.origin stmt }) :
    Acts C p d (.gossip peer op (.ok stmt) now wf wa)
      ({ p with server := s, tasks }, out.2.saveAttestations wa s, none)
  | record {i : Nat} {now : Int} {theirs : Option Checkpoint} {w : Write} {origin : Bytes}
      {size : Nat} {peerID : Bytes} (free : p.cosigning = none)
      (task : p.tasks[i]? = some (.recordFork origin size peerID)) {out : Server × Dir}
      {tasks : List Task}
      (recorded : out = p.server.recordFork
        (p.server.peerFork now origin size theirs peerID) w d) :
    Acts C p d (.resume i now theirs w) ({ p with server := out.1, tasks }, out.2, none)

variable {p : Proc} {d : Dir}

lemma locked_acts {a : Action} {tasks : List Task} {body : Server → Dir → Server × Dir}
    (h : p.cosigning = none → Acts C p d a
      ({ p with server := (body p.server d).1, tasks }, (body p.server d).2, none)) :
    Acts C p d a (p.locked d tasks body) := by
  unfold Proc.locked
  split
  · exact .idle p.tasks
  · exact h ‹_›

lemma addPeer_frame (peer : Option Peer) (now : Int) (w : Write) (s : Server) (d : Dir) :
    ∃ peers files, (s.addPeer peer now w d).1 = { s with peers := peers } ∧
      (s.addPeer peer now w d).2.1 = { d with peers := files } := by
  cases peer with
  | none => exact ⟨_, _, rfl, rfl⟩
  | some =>
    simp only [Server.addPeer]
    split
    · exact ⟨_, _, rfl, rfl⟩
    · split <;> exact ⟨_, _, rfl, rfl⟩

lemma recordAttestation_frame (peerID : Bytes) (ss : SignedSeen) (now : Int) (wf wa : Write)
    (s : Server) (d : Dir) :
    ∃ forks latest dforks dlatest,
      (s.recordAttestation peerID ss now wf wa d).1 = { s with forks := forks, latest := latest } ∧
      (s.recordAttestation peerID ss now wf wa d).2.1 =
        { d with forks := dforks, latest := dlatest } := by
  simp only [Server.recordAttestation]
  cases (s.latest.get2 peerID ss.origin).bind (·.findContradiction ss) with
  | none => exact ⟨_, _, _, _, rfl, rfl⟩
  | some => exact ⟨_, _, _, _, rfl, rfl⟩

lemma step_acts (a : Action) : Acts C p d a (p.step C d a) := by
  cases a with
  | cosign now w o chain group =>
    simp only [Proc.step, Proc.cosign]
    split
    · exact .idle p.tasks
    · rename_i hfree
      cases o with
      | none => exact .idle p.tasks
      | some c =>
        cases hcheck : p.server.checkCosign C c chain group with
        | error =>
          simp only [Server.beginCosign, hcheck]
          exact .idle p.tasks
        | ok =>
          cases hconf : p.server.conflict c with
          | some =>
            simp only [Server.beginCosign, hcheck, hconf]
            exact .fork hfree hcheck hconf rfl
          | none =>
            simp only [Server.beginCosign, hcheck, hconf]
            exact .note hfree hcheck hconf
  | save =>
    simp only [Proc.step, Proc.save]
    split
    · exact .saveSeen ‹_›
    · exact .saveCheckpoints ‹_›
    · exact .idle p.tasks
  | sign =>
    simp only [Proc.step, Proc.sign]
    split
    · exact .sign ‹_›
    · exact .idle p.tasks
  | addOperator op =>
    rw [Proc.step]
    refine locked_acts fun hfree => ?_
    cases op with
    | none => exact .idle p.tasks
    | some =>
      simp only [Server.addOperator]
      split
      · exact .idle p.tasks
      · exact .addOperator hfree rfl
  | addPeer peer now w =>
    obtain ⟨peers, files, hs, hd⟩ := addPeer_frame peer now w p.server d
    rw [Proc.step]
    refine locked_acts fun hfree => ?_
    simp only [hs, hd]
    exact .addPeer hfree peers files
  | clearFork => exact locked_acts .clearFork
  | compareWithPeer => exact .idle _
  | gossip peer op reply =>
    simp only [Proc.step, Proc.gossip]
    cases reply with
    | error => exact .idle p.tasks
    | ok stmt =>
      simp only
      split
      · rename_i hacc
        refine locked_acts fun hfree => ?_
        simp only [Server.recordAttestation]
        cases hfound : (p.server.latest.get2 peer.id stmt.origin).bind
            (·.findContradiction stmt) with
        | none => exact .heard hfree hacc hfound rfl
        | some size =>
          obtain ⟨prev, hprev, hsize⟩ := Option.bind_eq_some_iff.mp hfound
          exact .contradicted hfree hacc hprev hsize rfl rfl
      · exact .idle p.tasks
  | resume =>
    simp only [Proc.step, Proc.resume]
    split
    · exact .idle p.tasks
    · exact .idle _
    · rename_i origin size peerID htask
      exact locked_acts fun hfree => .record hfree htask rfl
  | openServer => exact .idle p.tasks
  | crash => exact .idle p.tasks

/-! ## The invariant -/

def Recorded (m : Seen) (c : Checkpoint) : Prop := m.get2 c.origin c.size = some (hex c.rootHash)

lemma Recorded.mono {m m' : Seen} {c : Checkpoint} (h : Recorded m c) (hm : m.Sub m') :
    Recorded m' c := hm h

/-- A running witness: what is on disk is in memory, the checkpoint of the `Cosign` call in progress
is in memory, and on disk as well once `seen.json` has been saved. -/
structure Proc.Inv (p : Proc) (d : Dir) : Prop where
  utf8 : p.server.seen.Utf8Keys
  sub : d.seen.Sub p.server.seen
  inMemory : ∀ ph c, p.cosigning = some (ph, c) → Recorded p.server.seen c
  onDisk : ∀ ph c, p.cosigning = some (ph, c) → ph ≠ .saveSeen → Recorded d.seen c

/-- **The invariant of every run**: a signature is only released for a root that is on disk. -/
structure World.Inv (w : World) : Prop where
  utf8 : w.dir.seen.Utf8Keys
  proc : ∀ p, w.proc = some p → p.Inv w.dir
  released : ∀ r ∈ w.released, Recorded w.dir.seen r.1

structure Keeps (d : Dir) (out : Proc.Out) : Prop where
  inv : out.1.Inv out.2.1
  utf8 : out.2.1.seen.Utf8Keys
  sub : d.seen.Sub out.2.1.seen
  released : ∀ r ∈ out.2.2, Recorded out.2.1.seen r.1

/-- A step that leaves the recorded roots and the `Cosign` call in progress. -/
lemma Keeps.frame (h : p.Inv d) (hd : d.seen.Utf8Keys) {p' : Proc} {d' : Dir}
    (hseen : p'.server.seen = p.server.seen) (hcosign : p'.cosigning = p.cosigning)
    (hdir : d'.seen = d.seen) : Keeps d (p', d', none) where
  inv := by
    obtain ⟨hutf8, hsub, hmem, hdisk⟩ := h
    constructor
    · rw [hseen]; exact hutf8
    · rw [hseen, hdir]; exact hsub
    · rw [hseen, hcosign]; exact hmem
    · rw [hdir, hcosign]; exact hdisk
  utf8 := by rw [hdir]; exact hd
  sub := by rw [hdir]; exact .refl _
  released := by simp

lemma note_keeps (h : p.Inv d) (hd : d.seen.Utf8Keys) {c : Checkpoint} (hc : Utf8 c.origin)
    (hconf : p.server.conflict c = none) : Keeps d
      ({ p with server := p.server.note c, cosigning := some (.saveSeen, c) }, d, none) := by
  have hrec : Recorded (p.server.note c).seen c := Dict.get2_put2_self _ _ _ _
  have hsub : p.server.seen.Sub (p.server.note c).seen :=
    Dict.sub_put2 (Server.conflict_eq_none.mp hconf)
  refine ⟨⟨h.utf8.put2 hc _ _, h.sub.trans hsub, ?_, ?_⟩, hd, .refl _, by simp⟩
  · rintro ph c' ⟨⟩
    exact hrec
  · rintro ph c' ⟨⟩ hph
    exact absurd rfl hph

/-- A save of `seen.json` loses nothing that was on disk and writes nothing that is not in memory,
whether it takes effect or not. -/
lemma saveSeen_between (h : p.Inv d) (hd : d.seen.Utf8Keys) (w : Write) :
    (d.saveSeen w p.server).seen.Utf8Keys ∧ d.seen.Sub (d.saveSeen w p.server).seen ∧
      (d.saveSeen w p.server).seen.Sub p.server.seen := by
  unfold Dir.saveSeen
  rcases w.put_cases d.seen (Dict.crossed id p.server.seen) with hput | hput
  · simp only [hput]
    exact ⟨hd, .refl _, h.sub⟩
  · simp only [hput]
    refine ⟨h.utf8.crossed, fun o n v hv => ?_, fun o n v hv => ?_⟩
    · rw [Dict.get2_crossed h.utf8]
      exact h.sub hv
    · rwa [Dict.get2_crossed h.utf8] at hv

lemma saveSeen_ok (h : p.Inv d) {w : Write} (hw : w.err = none) :
    p.server.seen.Sub (d.saveSeen w p.server).seen := by
  intro o n v hv
  simp only [Dir.saveSeen, Write.put, w.renamed_of_ok hw, ↓reduceIte]
  rwa [Dict.get2_crossed h.utf8]

lemma next_phase {w : Write} {ph ph' : Phase} {c c' : Checkpoint}
    (h : (if w.err = none then some (ph, c) else none) = some (ph', c')) :
    w.err = none ∧ c = c' := by
  obtain ⟨hw, heq⟩ := Option.ite_none_right_eq_some.mp h
  cases heq
  exact ⟨hw, rfl⟩

lemma step_keeps (h : p.Inv d) (hd : d.seen.Utf8Keys) {a : Action} (ha : a.IsUtf8) :
    Keeps d (p.step C d a) := by
  have hacts : Acts C p d a (p.step C d a) := step_acts a
  generalize p.step C d a = out at hacts ⊢
  cases hacts with
  | note free check conflict => exact note_keeps h hd (ha _ rfl) conflict
  | @saveSeen w c phase =>
    obtain ⟨hutf8, hgrow, hsub⟩ := saveSeen_between h hd w
    have hrec : Recorded p.server.seen c := h.inMemory _ _ phase
    refine ⟨⟨h.utf8, hsub, ?_, ?_⟩, hutf8, hgrow, by simp⟩
    · intro ph c' hc'
      obtain ⟨-, rfl⟩ := next_phase hc'
      exact hrec
    · intro ph c' hc' _
      obtain ⟨hw, rfl⟩ := next_phase hc'
      exact hrec.mono (saveSeen_ok h hw)
  | @saveCheckpoints w c phase =>
    refine ⟨⟨h.utf8, h.sub, ?_, ?_⟩, hd, .refl _, by simp⟩
    · intro ph c' hc'
      obtain ⟨-, rfl⟩ := next_phase hc'
      exact h.inMemory _ _ phase
    · intro ph c' hc' _
      obtain ⟨-, rfl⟩ := next_phase hc'
      exact h.onDisk _ _ phase (by decide)
  | @sign now c phase =>
    refine ⟨⟨h.utf8, h.sub, by simp, by simp⟩, hd, .refl _, ?_⟩
    rintro r ⟨⟩
    exact h.onDisk _ _ phase (by decide)
  | _ =>
    subst_vars
    exact .frame h hd rfl rfl rfl

/-! ## Runs -/

section
variable {w : World}

lemma init_inv {d : Dir} (hd : d.seen.Utf8Keys) : (init d).Inv :=
  ⟨hd, by simp [init], by simp [init]⟩

lemma act_inv (h : w.Inv) {a : Action} (ha : a.IsUtf8) : (w.act C a).Inv := by
  unfold World.act
  split
  · exact h
  · rename_i p hp
    have hk : Keeps w.dir (p.step C w.dir a) := step_keeps (h.proc p hp) h.utf8 ha
    refine ⟨hk.utf8, ?_, ?_⟩
    · rintro p' ⟨⟩
      exact hk.inv
    · intro r hr
      rcases List.mem_append.mp hr with hr | hr
      · exact hk.released r (Option.mem_toList.mp hr)
      · exact (h.released r hr).mono hk.sub

lemma openServer_inv (h : w.Inv) (id : Bytes) (keys : Except Err (Bytes × Option Bytes)) :
    (w.openServer id keys).Inv := by
  unfold World.openServer
  split
  · rename_i s hproc hs
    have hseen : s.seen = w.dir.seen := by
      simp only [newServer] at hs
      cases keys with
      | error => cases hs
      | ok =>
        cases hs
        rfl
    refine ⟨h.utf8, ?_, h.released⟩
    rintro p ⟨⟩
    refine ⟨?_, ?_, by simp, by simp⟩
    · rw [hseen]; exact h.utf8
    · rw [hseen]; exact .refl _
  · exact h

lemma step_inv (h : w.Inv) {a : Action} (ha : a.IsUtf8) : (step C w a).Inv := by
  unfold step
  split
  · exact openServer_inv h _ _
  · exact ⟨h.utf8, by simp, h.released⟩
  · exact act_inv h ha

lemma run_inv {d : Dir} (hd : d.seen.Utf8Keys) {actions : List Action}
    (hactions : ∀ a ∈ actions, a.IsUtf8) : (run (step C) (init d) actions).Inv := by
  refine run_invariant (I := World.Inv) (fun w a ha h => ?_) (init_inv hd) hactions
  exact step_inv h ha

end

/-- **No witness double cosign.** In every run on a directory, whatever the saves, the crashes, the
restarts, the gossip and the reconfigurations, the checkpoints that `Cosign` returned a signature
for have one root at each origin and size. -/
theorem no_witness_double_cosign (C : Crypto) {d : Dir} (hd : d.seen.Utf8Keys)
    {actions : List Action} (hactions : ∀ a ∈ actions, a.IsUtf8) {r r' : Checkpoint × WitnessSig}
    (hr : r ∈ (run (step C) (init d) actions).released)
    (hr' : r' ∈ (run (step C) (init d) actions).released)
    (horigin : r.1.origin = r'.1.origin) (hsize : r.1.size = r'.1.size) :
    r.1.rootHash = r'.1.rootHash := by
  have hinv : (run (step C) (init d) actions).Inv := run_inv hd hactions
  have hrec := hinv.released r hr
  have hrec' := hinv.released r' hr'
  unfold Recorded at hrec hrec'
  rw [horigin, hsize, hrec'] at hrec
  exact (hex_inj (Option.some.inj hrec)).symm

def laterCheckpoint : Checkpoint := .signedWith operatorKey { soloCheckpoint with timeNanos := 9 }

def forkedCheckpoint : Checkpoint := .signedWith operatorKey { soloCheckpoint with rootHash := [1] }

def sampleRun : List Action :=
  [.openServer (lit "w") (.ok (List.replicate 32 7, none)),
    .addOperator (some ⟨lit "log", operatorKey, []⟩) .done] ++
  cosignActions (.clean 1) (some soloCheckpoint) (some soloChain) none ++
  [.crash, .openServer (lit "w") (.ok (List.replicate 32 7, none))] ++
  cosignActions (.clean 2) (some forkedCheckpoint) (some soloChain) none ++
  [.clearFork (lit "log") .done] ++
  cosignActions (.clean 3) (some forkedCheckpoint) (some soloChain) none ++
  [.clearFork (lit "log") .done] ++
  cosignActions (.clean 4) (some laterCheckpoint) (some soloChain) none

theorem no_witness_double_cosign_sampleRun :
    ∃ r ∈ (run (step .sample) (init {}) sampleRun).released,
      ∃ r' ∈ (run (step .sample) (init {}) sampleRun).released,
        r.1 = soloCheckpoint ∧ r'.1 = laterCheckpoint ∧ r.1.rootHash = r'.1.rootHash := by
  have hreleased : (run (step .sample) (init {}) sampleRun).released.map Prod.fst =
      [laterCheckpoint, soloCheckpoint] := by decide +kernel
  have hutf8 : ∀ a ∈ sampleRun, a.IsUtf8 := by
    simp [sampleRun, cosignActions, Action.IsUtf8, soloCheckpoint, forkedCheckpoint,
      laterCheckpoint, Checkpoint.signedWith]
    decide
  have hmem {c : Checkpoint} (hc : c ∈ [laterCheckpoint, soloCheckpoint]) :
      ∃ r ∈ (run (step .sample) (init {}) sampleRun).released, r.1 = c :=
    List.mem_map.mp (hreleased ▸ hc)
  obtain ⟨r, hr, hr1⟩ := hmem (c := soloCheckpoint) (by simp)
  obtain ⟨r', hr', hr1'⟩ := hmem (c := laterCheckpoint) (by simp)
  have horigin : r.1.origin = r'.1.origin := by rw [hr1, hr1']; rfl
  have hsize : r.1.size = r'.1.size := by rw [hr1, hr1']; rfl
  exact ⟨r, hr, r', hr', hr1, hr1',
    no_witness_double_cosign .sample (fun _ hk => by cases hk) hutf8 hr hr' horigin hsize⟩

end Stele.Witness
