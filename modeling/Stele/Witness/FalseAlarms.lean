import Stele.Witness.Gossip

/-!
# False fork alarms

Honest witnesses, operators that do not equivocate, and a network that delivers any statement that
was ever issued as the answer to any query.
-/

namespace Stele.Witness

open Lib

structure Mail (ι : Type) where
  world : ι → World
  issued : List SignedSeen

def Mail.init (ι : Type) : Mail ι := ⟨fun _ => Witness.init {}, []⟩

inductive MailAction (ι : Type)
  | act (i : ι) (a : Action)
  | issue (i : ι) (now : Int) (origin : Bytes)

def Mail.step {ι : Type} [DecidableEq ι] (C : Crypto) (m : Mail ι) : MailAction ι → Mail ι
  | .act i a => { m with world := Function.update m.world i (Witness.step C (m.world i) a) }
  | .issue i now origin =>
    match (m.world i).proc with
    | none => m
    | some p => { m with issued := m.issued ++ [p.server.issueSignedSeen C now origin] }

abbrev Roots := Bytes → Nat → Bytes

/-- What the parties and the network do: a checkpoint that passes the checks of `Cosign` has the
operator's root, an answer to a query is a statement that was issued, to whomever and about
whatever, and `CompareWithPeer` is called by `gossipOne` only. Requests are JSON, so origins are
UTF-8. -/
def MailAction.Genuine {ι : Type} (C : Crypto) (roots : Roots) (m : Mail ι) : MailAction ι → Prop
  | .act i (.cosign _ _ c chain group) => ∀ c', c = some c' → Utf8 c'.origin ∧
    ∀ p, (m.world i).proc = some p → p.server.checkCosign C c' chain group = .ok () →
      c'.rootHash = roots c'.origin c'.size
  | .act _ (.gossip peer op reply _ _ _) => Utf8 peer.id ∧ Utf8 op.origin ∧
    ∀ stmt, reply = .ok stmt → ∃ s ∈ m.issued, stmt = s.reread
  | .act _ (.compareWithPeer _ _ _) => False
  | _ => True

def MailAction.Matched {ι : Type} : MailAction ι → Prop
  | .act _ (.gossip _ op reply _ _ _) => ∀ stmt, reply = .ok stmt → stmt.origin = op.origin
  | _ => True

variable {ι : Type}

instance decidableSeen : DecidableEq (Dict Nat Bytes) := fun m m' =>
  decidable_of_iff (m.entries = m'.entries) AList.ext_iff.symm

deriving instance DecidableEq for SignedSeen

instance decidableReply {P : SignedSeen → Prop} [∀ s, Decidable (P s)] :
    (reply : Except Err SignedSeen) → Decidable (∀ stmt, reply = .ok stmt → P stmt)
  | .error _ => isTrue nofun
  | .ok s => decidable_of_iff (P s) ⟨fun h _ heq => Except.ok.inj heq ▸ h, fun h => h s rfl⟩

instance (C : Crypto) (roots : Roots) (m : Mail ι) (a : MailAction ι) :
    Decidable (a.Genuine C roots m) := by
  unfold MailAction.Genuine
  split <;> infer_instance

instance (a : MailAction ι) : Decidable a.Matched := by
  unfold MailAction.Matched
  split <;> infer_instance

/-! ## Truth -/

def TruthfulFor (roots : Roots) (origin : Bytes) (seen : Dict Nat Bytes) : Prop :=
  ∀ n r, seen.lookup n = some r → r = hex (roots origin n)

def Truthful (roots : Roots) (m : Seen) : Prop :=
  ∀ o n r, m.get2 o n = some r → r = hex (roots o n)

def LatestTruthful (roots : Roots) (m : Dict Bytes (Dict Bytes SignedSeen)) : Prop :=
  m.Utf8Keys2 ∧ ∀ q o stmt, m.get2 q o = some stmt → TruthfulFor roots o stmt.seen

def Task.Truthful (roots : Roots) : Task → Prop
  | .compare origin peerSeen _ => TruthfulFor roots origin peerSeen
  | .recordFork _ _ _ => False

structure World.Peaceful (roots : Roots) (w : World) : Prop where
  inv : w.Inv
  seen : Truthful roots w.dir.seen
  latest : LatestTruthful roots w.dir.latest
  forks : w.dir.forks = ∅
  memSeen : ∀ p, w.proc = some p → Truthful roots p.server.seen
  memLatest : ∀ p, w.proc = some p → LatestTruthful roots p.server.latest
  memForks : ∀ p, w.proc = some p → p.server.forks = ∅
  tasks : ∀ p, w.proc = some p → ∀ t ∈ p.tasks, t.Truthful roots

structure Action.True (C : Crypto) (roots : Roots) (w : World) (a : Action) : Prop where
  utf8 : a.IsUtf8
  cosign : ∀ now save c chain group p, a = .cosign now save (some c) chain group →
    w.proc = some p → p.server.checkCosign C c chain group = .ok () →
    c.rootHash = roots c.origin c.size
  gossip : ∀ peer op stmt now wf wa, a = .gossip peer op (.ok stmt) now wf wa →
    Utf8 peer.id ∧ Utf8 op.origin ∧ stmt.origin = op.origin ∧ TruthfulFor roots op.origin stmt.seen
  compare : ∀ origin peerSeen peer, a ≠ .compareWithPeer origin peerSeen peer

variable {C : Crypto} {roots : Roots}

section
variable {w : World} {p : Proc} {d : Dir} {origin : Bytes} {s : SignedSeen}

lemma TruthfulFor.reread (h : TruthfulFor roots origin s.seen) :
    TruthfulFor roots origin s.reread.seen := by
  intro n r hr
  have hr : (Dict.mapValues coerce s.seen).lookup n = some r := hr
  rw [Dict.lookup_mapValues, Option.map_eq_some_iff] at hr
  obtain ⟨r₀, hr₀, rfl⟩ := hr
  rw [h n r₀ hr₀]
  exact coerce_of_utf8 (utf8_hex _)

lemma LatestTruthful.put2 {m : Dict Bytes (Dict Bytes SignedSeen)} (h : LatestTruthful roots m)
    {q : Bytes} (hq : Utf8 q) {stmt : SignedSeen} (ho : Utf8 stmt.origin)
    (hstmt : TruthfulFor roots stmt.origin stmt.seen) :
    LatestTruthful roots (m.put2 q stmt.origin stmt) := by
  refine ⟨h.1.put2 hq ho stmt, fun q' o' stmt' hget => ?_⟩
  rcases Dict.get2_put2_cases hget with ⟨rfl, rfl, rfl⟩ | hold
  · exact hstmt
  · exact h.2 q' o' stmt' hold

lemma LatestTruthful.crossed {m : Dict Bytes (Dict Bytes SignedSeen)}
    (h : LatestTruthful roots m) :
    LatestTruthful roots (Dict.crossed (Dict.crossed SignedSeen.reread) m) := by
  refine ⟨h.1.crossed, fun q o stmt hget => ?_⟩
  rw [Dict.get2_crossed2 h.1, Option.map_eq_some_iff] at hget
  obtain ⟨stmt₀, hget₀, rfl⟩ := hget
  exact (h.2 q o stmt₀ hget₀).reread

lemma TruthfulFor.not_contradicts {s' : SignedSeen} (h : TruthfulFor roots origin s.seen)
    (h' : TruthfulFor roots origin s'.seen) : ¬ s.Contradicts s' := by
  rintro ⟨n, r, r', hr, hr', hne⟩
  rw [h n r hr, h' n r' hr'] at hne
  exact hne rfl

lemma TruthfulFor.findFork {s : Server} {peerSeen : Dict Nat Bytes}
    (h : TruthfulFor roots origin peerSeen) (hs : Truthful roots s.seen) :
    s.findFork origin peerSeen = none := by
  cases hfound : s.findFork origin peerSeen with
  | none => rfl
  | some =>
    obtain ⟨hours, htheirs, hne⟩ := findFork_some hfound
    rw [hs _ _ _ hours, h _ _ htheirs] at hne
    exact absurd rfl hne

variable {a : Action}

section

variable (h : w.Peaceful roots) (hp : w.proc = some p) (ha : a.True C roots w)

include h hp ha

lemma Action.True.not_raise {f : ForkEvidence} {save : Write} : ¬ Raise C p a f save := by
  intro hwhy
  cases hwhy with
  | cosign hfree hcheck hconf =>
    have hroot := ha.cosign _ _ _ _ _ p rfl hp hcheck
    obtain ⟨hget, hne⟩ := Option.filter_eq_some_iff.mp hconf
    rw [h.memSeen p hp _ _ _ hget, hroot] at hne
    simp at hne
  | contradiction hfree hacc hlatest hfound =>
    obtain ⟨-, -, ho, htrue⟩ := ha.gossip _ _ _ _ _ _ rfl
    have hprev := (h.memLatest p hp).2 _ _ _ hlatest
    rw [← ho] at htrue
    have hnone := SignedSeen.findContradiction_eq_none.mpr (hprev.not_contradicts htrue)
    rw [hnone] at hfound
    cases hfound
  | compare hfree htask => exact h.tasks p hp _ (List.mem_of_getElem? htask)

lemma Action.True.tasks {t : Task} (ht : TaskFrom C p a t) : t.Truthful roots := by
  cases ht with
  | old hmem => exact h.tasks p hp t hmem
  | gossip hact => exact (ha.gossip _ _ _ _ _ _ hact).2.2.2
  | call hact => exact absurd hact (ha.compare _ _ _)
  | found hact htask hfound =>
    have htrue : TruthfulFor roots _ _ := h.tasks p hp _ htask
    rw [htrue.findFork (h.memSeen p hp)] at hfound
    cases hfound

lemma World.Peaceful.act_seen : Truthful roots (p.step C w.dir a).1.server.seen ∧
      Truthful roots (p.step C w.dir a).2.1.seen := by
  cases step_seen (C := C) (p := p) (d := w.dir) a with
  | same hs _ hd =>
    rw [hs, hd]
    exact ⟨h.memSeen p hp, h.seen⟩
  | note now save c chain group hact hcheck hconf hs hd =>
    rw [hs, hd]
    refine ⟨fun o n r hr => ?_, h.seen⟩
    rcases Dict.get2_put2_cases hr with ⟨rfl, rfl, rfl⟩ | hold
    · rw [ha.cosign _ _ _ _ _ p hact hp hcheck]
    · exact h.memSeen p hp o n r hold
  | saveSeen save hs hd =>
    rw [hs, hd]
    have hsub := (saveSeen_between (h.inv.proc p hp) h.inv.utf8 save).2.2
    exact ⟨h.memSeen p hp, fun o n r hr => h.memSeen p hp o n r (hsub hr)⟩
  | saveCheckpoints save c hphase hs hd =>
    rw [hs, hd]
    exact ⟨h.memSeen p hp, h.seen⟩

lemma World.Peaceful.act_latest : LatestTruthful roots (p.step C w.dir a).1.server.latest ∧
      LatestTruthful roots (p.step C w.dir a).2.1.latest := by
  cases step_latest (C := C) (p := p) (d := w.dir) a with
  | same hs hd =>
    rw [hs, hd]
    exact ⟨h.memLatest p hp, h.latest⟩
  | heard peer op stmt now wf wa hact hfree hacc hs hd =>
    obtain ⟨hq, hop, ho, htrue⟩ := ha.gossip _ _ _ _ _ _ hact
    rw [← ho] at htrue hop
    have hnew := (h.memLatest p hp).put2 hq hop htrue
    rw [hd, hs]
    refine ⟨hnew, ?_⟩
    rcases wa.put_cases w.dir.latest (Dict.crossed (Dict.crossed SignedSeen.reread)
        (p.server.latest.put2 peer.id stmt.origin stmt)) with heq | heq
    · rw [heq]
      exact h.latest
    · rw [heq]
      exact hnew.crossed

lemma World.Peaceful.act_forks :
    (p.step C w.dir a).1.server.forks = ∅ ∧ (p.step C w.dir a).2.1.forks = ∅ := by
  cases step_forks (C := C) (p := p) (d := w.dir) a with
  | same hs hd =>
    rw [hs, hd]
    exact ⟨h.memForks p hp, h.forks⟩
  | raise f save hwhy => exact absurd hwhy (ha.not_raise h hp)
  | clear origin save hact hs hd =>
    have hmem : (p.step C w.dir a).1.server.forks = ∅ := by
      rw [hs, h.memForks p hp]
      rfl
    refine ⟨hmem, ?_⟩
    rw [hd, hmem, h.forks]
    rcases save.put_cases ∅ (Dict.crossed ForkEvidence.reread ∅) with heq | heq
    · exact heq
    · exact heq.trans rfl

/-- **An action of a running witness that tells it nothing false.** -/
theorem World.Peaceful.act
    {w' : World} (hinv : w'.Inv) (hproc : w'.proc = some (p.step C w.dir a).1)
    (hdir : w'.dir = (p.step C w.dir a).2.1) : w'.Peaceful roots := by
  obtain ⟨hseen, hseen'⟩ := h.act_seen hp ha
  obtain ⟨hlatest, hlatest'⟩ := h.act_latest hp ha
  obtain ⟨hforks, hforks'⟩ := h.act_forks hp ha
  refine ⟨hinv, hdir ▸ hseen', hdir ▸ hlatest', hdir ▸ hforks', fun q hq => ?_, fun q hq => ?_,
    fun q hq => ?_, fun q hq => ?_⟩
  all_goals
    rw [hproc] at hq
    cases hq
  · exact hseen
  · exact hlatest
  · exact hforks
  · exact fun t ht => ha.tasks h hp (step_tasks a t ht)

end

/-- **Every action that tells a witness nothing false leaves it without forks.** -/
theorem World.Peaceful.step (h : w.Peaceful roots) (ha : a.True C roots w) :
    (Witness.step C w a).Peaceful roots := by
  have hinv : (Witness.step C w a).Inv := step_inv h.inv ha.utf8
  cases step_cases C w a with
  | idle heq =>
    rw [heq]
    exact h
  | crash hproc hdir =>
    refine ⟨hinv, by rw [hdir]; exact h.seen, by rw [hdir]; exact h.latest,
      by rw [hdir]; exact h.forks, ?_, ?_, ?_, ?_⟩ <;>
    · intro q hq
      rw [hproc] at hq
      cases hq
  | opened id keys s hact hproc hdir hnew =>
    obtain ⟨k, -, rfl⟩ := newServer_ok hnew
    refine ⟨hinv, by rw [hdir]; exact h.seen, by rw [hdir]; exact h.latest,
      by rw [hdir]; exact h.forks, fun q hq => ?_, fun q hq => ?_, fun q hq => ?_, fun q hq => ?_⟩
    all_goals
      rw [hproc] at hq
      cases hq
    · exact h.seen
    · exact h.latest
    · exact h.forks
    · intro t ht
      cases ht
  | acted p hp hproc hdir => exact h.act hp ha hinv hproc hdir

lemma World.Peaceful.init : (Witness.init {}).Peaceful roots where
  inv := init_inv nofun
  seen o n r hr := by cases hr
  latest := ⟨⟨nofun, nofun⟩, nofun⟩
  forks := rfl
  memSeen p hp := by cases hp
  memLatest p hp := by cases hp
  memForks p hp := by cases hp
  tasks p hp := by cases hp

/-- A statement that was issued is true, and it says nothing about an origin that is not UTF-8. -/
def SignedSeen.Honest (roots : Roots) (s : SignedSeen) : Prop :=
  TruthfulFor roots s.origin s.seen ∧ (¬ Utf8 s.origin → s.seen = ∅)

lemma SignedSeen.Honest.reread (h : s.Honest roots) :
    TruthfulFor roots s.reread.origin s.reread.seen := by
  by_cases hutf8 : Utf8 s.origin
  · have horigin : s.reread.origin = s.origin := coerce_of_utf8 hutf8
    rw [horigin]
    exact h.1.reread
  · intro n r hr
    have hr : (Dict.mapValues coerce s.seen).lookup n = some r := hr
    rw [h.2 hutf8] at hr
    cases hr

lemma issueSignedSeen_honest (h : w.Peaceful roots) (hp : w.proc = some p) (now : Int)
    (origin : Bytes) : (p.server.issueSignedSeen C now origin).Honest roots := by
  refine ⟨fun n r hr => ?_, fun hutf8 => ?_⟩
  · refine h.memSeen p hp origin n r ?_
    have hr : ((p.server.seen.lookup origin).getD ∅).lookup n = some r := hr
    cases hlook : p.server.seen.lookup origin with
    | none =>
      rw [hlook] at hr
      cases hr
    | some =>
      rw [hlook] at hr
      rw [Dict.get2, hlook]
      exact hr
  · have hnone : p.server.seen.lookup origin = none := by
      rw [AList.lookup_eq_none]
      exact fun hmem => hutf8 ((h.inv.proc p hp).utf8 origin hmem)
    show (p.server.seen.lookup origin).getD ∅ = ∅
    rw [hnone]
    rfl

end

/-! ## The network -/

structure Mail.Inv (roots : Roots) (m : Mail ι) : Prop where
  world : ∀ i, (m.world i).Peaceful roots
  issued : ∀ s ∈ m.issued, s.Honest roots

lemma MailAction.true_of_matched {m : Mail ι} (h : m.Inv roots) {i : ι} {a : Action}
    (ha : (MailAction.act i a).Genuine C roots m) (hmatch : (MailAction.act i a).Matched) :
    a.True C roots (m.world i) where
  utf8 := by
    cases a with
    | cosign =>
      rintro c' hc'
      exact (ha c' hc').1
    | _ => trivial
  cosign := by
    rintro now save c chain group p rfl hp hcheck
    exact (ha c rfl).2 p hp hcheck
  gossip := by
    rintro peer op stmt now wf wa rfl
    obtain ⟨hq, hop, hreply⟩ := ha
    obtain ⟨s, hs, rfl⟩ := hreply _ rfl
    have ho : s.reread.origin = op.origin := hmatch _ rfl
    exact ⟨hq, hop, ho, ho ▸ (h.issued s hs).reread⟩
  compare := by
    rintro origin peerSeen peer rfl
    exact ha

lemma Mail.Inv.step [DecidableEq ι] {m : Mail ι} (h : m.Inv roots) {a : MailAction ι}
    (ha : a.Genuine C roots m) (hmatch : a.Matched) : (m.step C a).Inv roots := by
  cases a with
  | act i a =>
    have hnew := (h.world i).step (MailAction.true_of_matched h ha hmatch)
    refine ⟨fun j => ?_, h.issued⟩
    show (Function.update m.world i (Witness.step C (m.world i) a) j).Peaceful roots
    by_cases hji : j = i
    · subst hji
      rw [Function.update_self]
      exact hnew
    · rw [Function.update_of_ne hji]
      exact h.world j
  | issue i now origin =>
    cases hp : (m.world i).proc with
    | none =>
      simp only [Mail.step, hp]
      exact h
    | some =>
      simp only [Mail.step, hp]
      refine ⟨h.world, fun s hs => ?_⟩
      rcases List.mem_append.mp hs with hs | hs
      · exact h.issued s hs
      · rw [List.mem_singleton.mp hs]
        exact issueSignedSeen_honest (h.world i) hp now origin

/-- **No false fork alarms while answers match their queries**: with honest witnesses and operators
that do not equivocate, no witness ever flags an origin. -/
theorem no_false_alarms {ι : Type} [DecidableEq ι] (C : Crypto) (roots : Roots)
    {as : List (MailAction ι)}
    (has : Along (Mail.step C) (fun m a => a.Genuine C roots m ∧ a.Matched) (Mail.init ι) as)
    (i : ι) (origin : Bytes) :
    let w := (run (Mail.step C) (Mail.init ι) as).world i
    w.dir.forks.lookup origin = none ∧
      ∀ p, w.proc = some p → p.server.forks.lookup origin = none := by
  have hinit : (Mail.init ι).Inv roots := ⟨fun _ => .init, nofun⟩
  have hinv := along_invariant (I := Mail.Inv roots) (fun m a h ha => h.step ha.1 ha.2) hinit has
  refine ⟨?_, fun p hp => ?_⟩
  · rw [(hinv.world i).forks]
    rfl
  · rw [(hinv.world i).memForks p hp]
    rfl

def otherCheckpoint : Checkpoint :=
  .signedWith operatorKey { soloCheckpoint with origin := lit "other", rootHash := [1] }

def sampleRoots : Roots := fun origin _ =>
  if origin = lit "other" then otherCheckpoint.rootHash else soloCheckpoint.rootHash

def watchBoth (i : Bool) (c : Checkpoint) : List (MailAction Bool) :=
  [.act i (.openServer (if i then lit "b" else lit "a")
      (.ok (List.replicate 32 (if i then 9 else 7), none))),
    .act i (.addOperator (some ⟨lit "log", operatorKey, []⟩) .done),
    .act i (.addOperator (some ⟨lit "other", operatorKey, []⟩) .done)] ++
  (cosignActions (.clean 1) (some c) (some soloChain) none).map (.act i)

def sampleAnswer (origin : String) (seen : Dict Nat Bytes) : SignedSeen :=
  let s : SignedSeen := {
    witnessID := lit "b"
    publicKey := List.replicate 32 9
    keyID := keyIDOf .sample (List.replicate 32 9)
    origin := lit origin
    seen := seen
    issuedAt := 2 }
  { s with signature := Crypto.sample.edSign (List.replicate 32 9) s.canonical }

def misroute (asked : String) (answer : SignedSeen) : List (MailAction Bool) :=
  watchBoth false soloCheckpoint ++ watchBoth true otherCheckpoint ++
  [.issue true 2 (lit asked),
    .act false (.gossip ⟨lit "b", lit "http://b", List.replicate 32 9, [], 0⟩
      ⟨lit "log", operatorKey, []⟩ (.ok answer) 3 .done .done),
    .act false (.resume 0 4 none .done), .act false (.resume 0 5 none .done)]

theorem no_false_alarms_sample :
    let w := (run (Mail.step .sample) (Mail.init Bool)
      (misroute "log" (sampleAnswer "log" ∅))).world false
    w.proc.isSome ∧ w.dir.forks.lookup (lit "log") = none ∧
      ∀ p, w.proc = some p → p.server.forks.lookup (lit "log") = none :=
  ⟨by decide +kernel, no_false_alarms .sample sampleRoots (by decide +kernel) false (lit "log")⟩

/-- A genuine statement about the other log flags this one, and no operator has equivocated. -/
theorem misrouted_statement_flags :
    Along (Mail.step .sample) (fun m a => a.Genuine .sample sampleRoots m) (Mail.init Bool)
      (misroute "other" (sampleAnswer "other" ((∅ : Dict Nat Bytes).insert 0 (lit "01")))) ∧
    ((run (Mail.step .sample) (Mail.init Bool)
      (misroute "other" (sampleAnswer "other"
        ((∅ : Dict Nat Bytes).insert 0 (lit "01"))))).world false).dir.forks.lookup (lit "log") ≠
      none := by
  decide +kernel

end Stele.Witness
