import Stele.Api.Server

/-!
# The proof handlers while the log grows (`pkg/api`)

A handler makes several calls of the log, and the log may grow between two of them. Here a handler
is a program of such calls. Before each call the environment acts: other threads append, sign
checkpoints and serve proofs (`Event`). A call that takes the log's lock waits until it is free.
-/

namespace Stele.Api

open Lib List Option

open Core (State Proc)

/-! ## Calls of the log -/

inductive Call
  | size
  | root
  | get (idx : Nat)
  | prove (q : Core.Request)
  | latestCheckpoint

abbrev Call.Ans : Call → Type
  | .size => Nat
  | .root => Bytes
  | .get _ => Entry
  | .prove _ => List Bytes
  | .latestCheckpoint => Option Checkpoint

def Call.locks : Call → Bool
  | .size | .root | .prove _ => true
  | .get _ | .latestCheckpoint => false

abbrev calls : Sig := ⟨Call, fun c => Res c.Ans⟩

/-- A handler: it answers 200 with a value, or with an error as the client reports it. -/
abbrev Handler := ExceptT Err (Prog calls)

def call (c : Call) : Handler (Res c.Ans) := ExceptT.mk (do return .ok (← @Prog.call calls c))

def check {α : Type} (status : Nat) (r : Res α) : Handler α := ExceptT.mk (pure (respond status r))

def ask (status : Nat) (c : Call) : Handler c.Ans := do check status (← call c)

structure InclusionResponse where
  index : Nat
  treeSize : Nat
  leafHash : Bytes
  proof : List Bytes
  rootHash : Bytes
  deriving DecidableEq

structure ConsistencyResponse where
  oldSize : Nat
  newSize : Nat
  oldRoot : Option Bytes
  newRoot : Bytes
  proof : List Bytes
  deriving DecidableEq

structure SizeResponse where
  size : Nat
  rootHash : Bytes
  headHash : Option Bytes
  deriving DecidableEq

def handleInclusionProof (index : Nat) (treeSize : Option Nat) : Handler InclusionResponse := do
  let idx ← check 400 (parseUint "invalid index: %w" index)
  let size ← ask 500 .size
  let treeSize ← check 400 (Server.requestedSize size treeSize)
  let entry ← ask 404 (.get idx)
  let proof ← ask 400 (.prove (.inclusion idx treeSize))
  let root ← ask 500 .root
  let current ← ask 500 .size
  check 501 (ensure (treeSize = current) (errorf "MVP only serves proofs at current tree size" []))
  return {
    index := idx
    treeSize := treeSize
    leafHash := entry.leafHash
    proof := proof
    rootHash := root }

def newSizeOf (size : Nat) : Option Nat → Res Nat
  | none => .ok size
  | some n => parseUint "invalid new: %w" n

def bestEffort (r : Res (Option Checkpoint)) : Res (Option Checkpoint) :=
  match r with
  | .ok c => .ok c
  | .error (.err _) => .ok none
  | .error (.panic w) => .error (.panic w)

lemma bestEffort_some {r : Res (Option Checkpoint)} {c : Checkpoint}
    (h : bestEffort r = .ok (some c)) : r = .ok (some c) := by
  unfold bestEffort at h
  split at h
  · exact h
  · cases h
  · cases h

def handleConsistencyProof (old : Nat) (new : Option Nat) : Handler ConsistencyResponse := do
  let oldSize ← check 400 (parseUint "invalid old: %w" old)
  let size ← ask 500 .size
  let newSize ← check 400 (newSizeOf size new)
  let current ← ask 500 .size
  check 501 (ensure (newSize = current) (errorf "MVP only serves proofs at current tree size" []))
  let proof ← ask 400 (.prove (.consistency oldSize newSize))
  let newRoot ← ask 500 .root
  let latest ← check 500 (bestEffort (← call .latestCheckpoint))
  return {
    oldSize := oldSize
    newSize := newSize
    oldRoot := (latest.filter fun cp => cp.size = oldSize).map Checkpoint.rootHash
    newRoot := newRoot
    proof := proof }

def handleSize : Handler SizeResponse := do
  let size ← ask 500 .size
  let root ← ask 500 .root
  let latest ← check 500 (bestEffort (← call .latestCheckpoint))
  return { size := size, rootHash := root, headHash := latest.map Checkpoint.headHash }

/-! ## The log between two calls -/

variable {R : RangeImpl Bytes}

/-- What happens between two calls of a handler: an action of the operator, or a proof for another
request. -/
inductive Event
  | act (a : Core.Action)
  | prove (faults : Nat → Option Err) (q : Core.Request)

def Event.IsUtf8 : Event → Prop
  | .act a => a.IsUtf8
  | .prove _ _ => True

instance (ev : Event) : Decidable ev.IsUtf8 :=
  match ev with
  | .act a => inferInstanceAs (Decidable a.IsUtf8)
  | .prove _ _ => isTrue trivial

/-- What the environment chooses for a call: what happens before it, and the errors of the
database. -/
structure Turn where
  events : List Event := []
  fault : Option Err := none
  faults : Nat → Option Err := fun _ => none
  ckptFault : Option Err := none

section
variable (C : Crypto) (P : ProofImpl Bytes) (opts : Core.Options)

def proved (faults : Nat → Option Err) (q : Core.Request) (s : State R) (p : Proc R) : State R :=
  { s with proc := some { p with
      tree := (Core.prove C P (Core.leafReads faults s.db) p.tree q).1.tree } }

def eventStep (s : State R) : Event → State R
  | .act a => Core.step C opts s a
  | .prove faults q =>
    match s.proc with
    | none => s
    | some p => if p.mu = none then proved C P faults q s p else s

def perform (turn : Turn) (s : State R) (p : Proc R) : (c : Call) → State R × Res c.Ans
  | .size => (s, .ok p.tree.size)
  | .root => (s, p.tree.root C)
  | .get idx => (s, s.db.getEntry turn.fault idx)
  | .prove q =>
    (proved C P turn.faults q s p, (Core.prove C P (Core.leafReads turn.faults s.db) p.tree q).2)
  | .latestCheckpoint => (s, Core.latestCheckpoint turn.fault turn.ckptFault s.db)

def serve : Prog.Interp calls (State R) Turn := fun c s turn =>
  let s := run (eventStep C P opts) s turn.events
  match s.proc with
  | none => (s, .error (.panic "no process"))
  | some p => perform C P turn s p c

def Reachable (c : Call) (s : State R) : Prop :=
  match s.proc with
  | none => False
  | some p => c.locks = true → p.mu = none

instance (c : Call) (s : State R) : Decidable (Reachable c s) := by
  unfold Reachable
  split <;> infer_instance

def Possible (c : Call) (s : State R) (turn : Turn) : Prop :=
  (∀ ev ∈ turn.events, ev.IsUtf8) ∧ Reachable c (run (eventStep C P opts) s turn.events)

instance (c : Call) (s : State R) (turn : Turn) : Decidable (Possible C P opts c s turn) :=
  inferInstanceAs (Decidable (_ ∧ _))

end

variable {C : Crypto} {P : ProofImpl Bytes} {opts : Core.Options}
  {RngHolds : R.Rng → List Bytes → Prop} {es : List Entry} {s : State R}

def Says (C : Crypto) (P : ProofImpl Bytes) (es : List Entry) : (c : Call) → c.Ans → Prop
  | .size, n => n = es.length
  | .root, root => root = rfc6962Root C (es.map Entry.leafHash)
  | .get idx, e => es[idx]? = some e
  | .prove q, proof => q.Within es.length ∧ q.Verified C P (es.map Entry.leafHash) proof
  | .latestCheckpoint, latest => ∀ c : Checkpoint, latest = some c →
      Core.Commits C es c.size c.rootHash c.headHash

variable (hR : R.Lawful (hashChildren C) (emptyRoot C) RngHolds)
  (hrep : R.Reports (hashChildren C) (emptyRoot C) RngHolds)
  (hP : P.Lawful (hashChildren C) (emptyRoot C))

include hR hP in
lemma upheld_proved (h : s.Upheld C RngHolds es) {p : Proc R} (hp : s.proc = some p)
    (hfree : p.mu = none) (faults : Nat → Option Err) (q : Core.Request) :
    (proved C P faults q s p).Upheld C RngHolds es := by
  have hready := ((h.mirrored hp hfree).prove hR hP faults q).ready
  have hes : es = es ++ Proc.pending p := by rw [Proc.pending, hfree, append_nil]
  have hinv := h.inv.proc p hp
  refine ⟨⟨h.inv.db, fun p' hp' => ?_, h.inv.returned⟩, h.recorded, fun p' hp' => ?_⟩
  · cases hp'
    exact ⟨⟨es, hready.holds, hes⟩, hinv.holder, hinv.ok⟩
  · cases hp'
    exact ⟨es, hready, hes⟩

include hR hrep hP in
lemma upheld_event (h : s.Upheld C RngHolds es) {ev : Event} (hev : ev.IsUtf8) :
    ∃ es', es <+: es' ∧ (eventStep C P opts s ev).Upheld C RngHolds es' := by
  cases ev with
  | act => exact h.step hR hrep opts hev
  | prove faults q =>
    refine ⟨es, prefix_refl es, ?_⟩
    unfold eventStep
    cases hp : s.proc with
    | none => exact h
    | some =>
      simp only
      split
      · rename_i hfree
        exact upheld_proved hR hP h hp hfree faults q
      · exact h

include hR hrep hP in
lemma upheld_events (h : s.Upheld C RngHolds es) {events : List Event}
    (hevents : ∀ ev ∈ events, ev.IsUtf8) :
    ∃ es', es <+: es' ∧ (run (eventStep C P opts) s events).Upheld C RngHolds es' := by
  refine run_invariant (I := fun s' : State R => ∃ es', es <+: es' ∧ s'.Upheld C RngHolds es')
    (fun s' ev hev hs' => ?_) ⟨es, prefix_refl es, h⟩ hevents
  obtain ⟨es', hpre, hs'⟩ := hs'
  obtain ⟨es'', hpre', hs''⟩ := upheld_event hR hrep hP hs' hev
  exact ⟨es'', hpre.trans hpre', hs''⟩

lemma getEntry_ok {db : Db} (h : db.Holds C es) {fault : Option Err} {i : Nat} {e : Entry}
    (he : db.getEntry fault i = .ok e) : es[i]? = some e := by
  cases fault with
  | some => cases he
  | none =>
    by_cases hi : i < es.length
    · rw [Core.getEntry_of_holds h (getElem?_eq_getElem hi)] at he
      rw [getElem?_eq_getElem hi, Except.ok.inj he]
    · have hnone : db.entry.get i = none := by
        rw [h.entry.get, getElem?_eq_none (by simpa using hi)]
      simp [Db.getEntry, Db.view, hnone] at he

lemma latestCheckpoint_commits {db : Db} (h : Core.Recorded C es db) {size ckpt : Option Err}
    {latest : Option Checkpoint} (hlatest : Core.latestCheckpoint size ckpt db = .ok latest) :
    ∀ c : Checkpoint, latest = some c → Core.Commits C es c.size c.rootHash c.headHash := by
  rintro c rfl
  have hfound : Core.latestCheckpoint none none db = .ok (some c) := by
    simp only [Core.latestCheckpoint, Db.latestCheckpoint, bind_ok] at hlatest ⊢
    obtain ⟨o, ⟨n, hn, ho⟩, hc⟩ := hlatest
    cases size with
    | some => cases hn
    | none =>
      refine ⟨o, ⟨n, hn, ?_⟩, hc⟩
      by_cases hzero : n = 0
      · rwa [if_pos hzero] at ho ⊢
      · rw [if_neg hzero] at ho ⊢
        cases ckpt with
        | some => cases ho
        | none => exact ho
  obtain ⟨n, doc, hdoc, hdecode⟩ := Core.latestCheckpoint_ok hfound
  obtain ⟨c', rfl, hsize, hcommits⟩ := h n doc hdoc
  rw [Doc.decode, Checkpoint.unmarshal_marshal] at hdecode
  cases hdecode
  rw [← hsize] at hcommits
  exact hcommits

include hR hP in
lemma perform_answers (h : s.Upheld C RngHolds es) {p : Proc R} (hp : s.proc = some p)
    {c : Call} (hfree : c.locks = true → p.mu = none) (turn : Turn) :
    (perform C P turn s p c).1.Upheld C RngHolds es ∧
      ∀ v, (perform C P turn s p c).2 = .ok v → Says C P es c v := by
  cases c with
  | size =>
    have hgood := (h.mirrored hp (hfree rfl)).good hR hP {}
    refine ⟨h, fun v hv => ?_⟩
    cases hv
    exact hgood.size.trans (length_map _)
  | root =>
    have hgood := (h.mirrored hp (hfree rfl)).good hR hP {}
    exact ⟨h, fun v hv => Except.ok.inj (hv.symm.trans hgood.root)⟩
  | get => exact ⟨h, fun v hv => getEntry_ok h.inv.db hv⟩
  | prove q =>
    have hgood := (h.mirrored hp (hfree rfl)).good hR hP {}
    refine ⟨upheld_proved hR hP h hp (hfree rfl) turn.faults q, fun v hv => ?_⟩
    have hverified := hgood.verified turn.faults q v hv
    rwa [length_map] at hverified
  | latestCheckpoint => exact ⟨h, fun v hv => latestCheckpoint_commits h.recorded hv⟩

/-! ## Rules for handlers -/

section
variable {α β : Type}

def Serves (C : Crypto) (P : ProofImpl Bytes) (opts : Core.Options)
    (ok : Call → State R → Turn → Prop) (Q : α → State R → Prop) (h : Handler α) (s : State R) :
    Prop :=
  Prog.Safe (serve C P opts) ok (fun _ _ => True) (fun out s' => ∀ v, out = .ok v → Q v s') h.run s

structure Answered (C : Crypto) (P : ProofImpl Bytes) (opts : Core.Options)
    (ok : Call → State R → Turn → Prop) (h : Handler α) (s : State R) (turns : List Turn) (v : α)
    (s' : State R) : Prop where
  admitted : Prog.Admits (serve C P opts) ok h.run s turns
  returned : Prog.exec (serve C P opts) h.run s turns = (s', .ret (.ok v))

variable {ok : Call → State R → Turn → Prop} {Q : α → State R → Prop}

lemma Serves.answered {h : Handler α} (hs : Serves C P opts ok Q h s) {turns : List Turn} {v : α}
    {s' : State R} (hv : Answered C P opts ok h s turns v s') : Q v s' :=
  Prog.Safe.returned hs hv.admitted hv.returned v rfl

lemma serves_pure {v : α} (h : Q v s) : Serves C P opts ok Q (pure v) s := by
  rintro v' ⟨⟩
  exact h

lemma serves_check {status : Nat} {r : Res β} {f : β → Handler α}
    (hf : ∀ v, r = .ok v → Serves C P opts ok Q (f v) s) :
    Serves C P opts ok Q (check status r >>= f) s := by
  cases r with
  | ok v => exact hf v rfl
  | error =>
    intro v hv
    cases hv

lemma serves_call {c : Call} {f : Res c.Ans → Handler α}
    (hf : ∀ turn, ok c s turn →
      Serves C P opts ok Q (f (serve C P opts c s turn).2) (serve C P opts c s turn).1) :
    Serves C P opts ok Q (call c >>= f) s :=
  ⟨trivial, hf⟩

section
variable (hok : ∀ c (s : State R) turn, ok c s turn → Possible C P opts c s turn)

include hR hrep hP

lemma serve_answers (h : s.Upheld C RngHolds es) {c : Call} {turn : Turn}
    (hturn : Possible C P opts c s turn) :
    ∃ es', es <+: es' ∧ (run (eventStep C P opts) s turn.events).db.Holds C es' ∧
      (serve C P opts c s turn).1.Upheld C RngHolds es' ∧
      ∀ v, (serve C P opts c s turn).2 = .ok v → Says C P es' c v := by
  obtain ⟨hutf8, hreach⟩ := hturn
  obtain ⟨es', hpre, hs'⟩ := upheld_events hR hrep hP h hutf8
  refine ⟨es', hpre, hs'.inv.db, ?_⟩
  unfold Reachable at hreach
  simp only [serve]
  cases hp : (run (eventStep C P opts) s turn.events).proc with
  | none =>
    rw [hp] at hreach
    exact hreach.elim
  | some =>
    rw [hp] at hreach
    exact perform_answers hR hP hs' hp hreach turn

include hok

/-- **The rule for a call**: the log has grown to some `es'`, and the answer is about it. -/
theorem serves_ask (h : s.Upheld C RngHolds es) {status : Nat} {c : Call} {f : c.Ans → Handler α}
    (hf : ∀ turn es' s' v, ok c s turn → es <+: es' →
      (run (eventStep C P opts) s turn.events).db.Holds C es' → s'.Upheld C RngHolds es' →
      Says C P es' c v → Serves C P opts ok Q (f v) s') :
    Serves C P opts ok Q (ask status c >>= f) s := by
  show Serves C P opts ok Q (call c >>= fun r => check status r >>= f) s
  refine serves_call fun turn hturn => serves_check fun v hv => ?_
  obtain ⟨es', hpre, hdb, hs', hanswer⟩ := serve_answers hR hrep hP h (hok c s turn hturn)
  exact hf turn es' _ v hturn hpre hdb hs' (hanswer v hv)

end

end

def answerOf {α : Type} (out : State R × Prog calls (Except Err α)) : Option α :=
  match out.2 with
  | .ret (.ok v) => some v
  | _ => none

lemma exists_answered {α : Type} (ok : Call → State R → Turn → Prop) {h : Handler α}
    {turns : List Turn} {v : α} (hadm : Prog.Admits (serve C P opts) ok h.run s turns)
    (hv : answerOf (Prog.exec (serve C P opts) h.run s turns) = some v) :
    ∃ s', Answered C P opts ok h s turns v s' := by
  rcases hrun : Prog.exec (serve C P opts) h.run s turns with ⟨s', out⟩
  rw [hrun] at hv
  unfold answerOf at hv
  split at hv
  · rename_i v' hout
    cases hv
    cases hout
    exact ⟨s', hadm, hrun⟩
  · cases hv

def sampleBefore : List Event := Core.sampleRun.map .act

def appendBetween : Turn where
  events := (.callAppend 7 (some (Core.envelopeAt 8)) false :: Core.steps 7 6).map .act

abbrev sampleServed : State Core.sampleRange :=
  run (eventStep .sample Core.sampleProofs {}) (Core.init Core.sampleRange) sampleBefore

include hR hrep hP in
/-- **Entries stay.** `GetEntry` returns an entry that it returned once in every later state, through
appends, failures, crashes and restarts. -/
theorem entry_stays {before later : List Event} (hevents : ∀ ev ∈ before ++ later, ev.IsUtf8)
    {fault : Option Err} {i : Nat} {e : Entry}
    (he : (run (eventStep C P opts) (Core.init R) before).db.getEntry fault i = .ok e) :
    (run (eventStep C P opts) (Core.init R) (before ++ later)).db.getEntry none i = .ok e := by
  obtain ⟨hbefore, hlater⟩ := forall_mem_append.mp hevents
  obtain ⟨es, -, hes⟩ := upheld_events hR hrep hP Core.init_upheld hbefore
  obtain ⟨es', hpre, hes'⟩ := upheld_events hR hrep hP hes hlater
  have hi := getEntry_ok hes.inv.db he
  obtain ⟨rest, rfl⟩ := hpre
  rw [run_append]
  refine Core.getEntry_of_holds hes'.inv.db ?_
  rwa [getElem?_append_left (List.getElem?_eq_some_iff.mp hi).1]

def restart : List Event := [.act .crash, .act (.start fun _ => {})]

theorem entry_stays_restart : ∃ e, sampleServed.db.getEntry none 0 = .ok e ∧
    (run (eventStep .sample Core.sampleProofs {}) (Core.init Core.sampleRange)
      (sampleBefore ++ restart)).db.getEntry none 0 = .ok e := by
  have hok : (sampleServed.db.getEntry none 0).toOption.isSome := by decide +kernel
  cases he : sampleServed.db.getEntry none 0 with
  | error => simp [he, Except.toOption] at hok
  | ok e => exact ⟨e, rfl, entry_stays (leafList_lawful _ _) (leafList_reports _ _)
      (wholeTree_lawful _ _) (by decide +kernel) he⟩

/-! ## Inclusion proofs -/

structure InclusionShown (C : Crypto) (P : ProofImpl Bytes) (es : List Entry)
    (resp : InclusionResponse) : Prop where
  size : resp.treeSize ≤ es.length
  root : resp.rootHash = rfc6962Root C ((es.take resp.treeSize).map Entry.leafHash)
  leaf : ∃ e, es[resp.index]? = some e ∧ resp.leafHash = e.leafHash
  included : P.verifyInclusion resp.index resp.treeSize resp.leafHash resp.proof resp.rootHash =
    .ok ()

section
include hR hrep hP

lemma handleInclusionProof_shows (h : s.Upheld C RngHolds es) (index : Nat)
    (treeSize : Option Nat) :
    Serves C P opts (Possible C P opts) (fun resp s' => ∃ es', es <+: es' ∧
      s'.Upheld C RngHolds es' ∧ InclusionShown C P es' resp)
      (handleInclusionProof index treeSize) s := by
  have hok : ∀ c (s : State R) turn, Possible C P opts c s turn → Possible C P opts c s turn :=
    fun _ _ _ h => h
  refine serves_check fun idx _ => ?_
  refine serves_ask hR hrep hP hok h fun _ es₁ s₁ size _ hpre₁ _ h₁ _ => ?_
  refine serves_check fun treeSize _ => ?_
  refine serves_ask hR hrep hP hok h₁ fun _ es₂ s₂ entry _ hpre₂ _ h₂ hentry => ?_
  refine serves_ask hR hrep hP hok h₂ fun _ es₃ s₃ proof _ hpre₃ _ h₃ hproof => ?_
  refine serves_ask hR hrep hP hok h₃ fun _ es₄ s₄ root _ hpre₄ _ h₄ hroot => ?_
  refine serves_ask hR hrep hP hok h₄ fun _ es₅ s₅ current _ hpre₅ _ h₅ hcurrent => ?_
  have hpre : es <+: es₃ := (hpre₁.trans hpre₂).trans hpre₃
  refine serves_check fun _ hsame => serves_pure
    ⟨es₅, hpre.trans (hpre₄.trans hpre₅), h₅, ?_⟩
  -- the log has as many entries at the end as the proof is for, so it has not grown since
  rw [ensure_ok, show current = es₅.length from hcurrent] at hsame
  obtain ⟨⟨hidx, hsize⟩, leaf, hleaf, hverified⟩ := hproof
  have hsame₅ : es₃ = es₅ := (hpre₄.trans hpre₅).eq_of_length_le (by omega)
  have hsame₄ : es₄ = es₅ := hpre₅.eq_of_length_le (by rw [← hsame₅]; exact hpre₄.length_le)
  subst hsame₅ hsame₄
  have hshown : es₄[idx]? = some entry := by
    obtain ⟨rest, rfl⟩ := hpre₃
    rw [List.getElem?_append_left (List.getElem?_eq_some_iff.mp hentry).1]
    exact hentry
  rw [List.getElem?_map, hshown, Option.map_some, Option.some.injEq] at hleaf
  have htake : es₄.take treeSize = es₄ := take_of_length_le (by omega)
  have hroot' : root = rfc6962Root C ((es₄.take treeSize).map Entry.leafHash) := by
    rw [htake]
    exact hroot
  refine ⟨hsize, hroot', ⟨entry, hshown, rfl⟩, ?_⟩
  rw [hroot', map_take, hleaf]
  exact hverified

lemma handleInclusionProof_serves (h : s.Upheld C RngHolds es) (index : Nat)
    (treeSize : Option Nat) :
    Serves C P opts (Possible C P opts)
      (fun resp s' => ∃ es', s'.db.Holds C es' ∧ InclusionShown C P es' resp)
      (handleInclusionProof index treeSize) s :=
  Prog.Safe.mono (handleInclusionProof_shows hR hrep hP h index treeSize) (fun _ _ _ => id)
    (fun _ _ => id) fun _ _ hpost v hv => (hpost v hv).imp fun _ h => ⟨h.2.1.inv.db, h.2.2⟩

/-- **Served inclusion proofs are consistent, whatever happens between the calls.** An answer with
status 200 shows the leaf of the entry at the index, in the tree of the size it names, against the
root of the log at that size. -/
theorem inclusion_answer_consistent (before : List Event)
    (hbefore : ∀ ev ∈ before, ev.IsUtf8) (index : Nat) (treeSize : Option Nat)
    (turns : List Turn) (resp : InclusionResponse) (s' : State R)
    (h : Answered C P opts (Possible C P opts) (handleInclusionProof index treeSize)
      (run (eventStep C P opts) (Core.init R) before) turns resp s') :
    ∃ es, s'.db.Holds C es ∧ InclusionShown C P es resp := by
  obtain ⟨es, -, hs⟩ := upheld_events hR hrep hP Core.init_upheld hbefore
  exact (handleInclusionProof_serves hR hrep hP hs index treeSize).answered h

end

theorem inclusion_answer_consistent_sample :
    ∃ resp s', Answered .sample Core.sampleProofs {} (Possible .sample Core.sampleProofs {})
        (handleInclusionProof 0 none) sampleServed
        [appendBetween, {}, {}, {}, {}] resp s' ∧
      ∃ es, s'.db.Holds .sample es ∧ InclusionShown .sample Core.sampleProofs es resp := by
  have hsome : (answerOf (Prog.exec (serve .sample Core.sampleProofs {})
      (handleInclusionProof 0 none).run sampleServed [appendBetween, {}, {}, {}, {}])).isSome := by
    decide +kernel
  obtain ⟨resp, hresp⟩ := isSome_iff_exists.mp hsome
  obtain ⟨s', h⟩ := exists_answered (Possible .sample Core.sampleProofs {}) (by decide +kernel)
    hresp
  exact ⟨resp, s', h, inclusion_answer_consistent (leafList_lawful _ _) (leafList_reports _ _)
    (wholeTree_lawful _ _) sampleBefore (by decide +kernel) 0 none _ resp s' h⟩

include hR hrep hP in
/-- **Inclusion answers agree.** Whatever happens during and between two answers, they give one leaf
for one index and one root for one size. -/
theorem inclusion_answers_agree {before between : List Event}
    (hevents : ∀ ev ∈ before ++ between, ev.IsUtf8) {index index' : Nat}
    {treeSize treeSize' : Option Nat} {turns turns' : List Turn} {resp resp' : InclusionResponse}
    {s₁ s₂ : State R}
    (h : Answered C P opts (Possible C P opts) (handleInclusionProof index treeSize)
      (run (eventStep C P opts) (Core.init R) before) turns resp s₁)
    (h' : Answered C P opts (Possible C P opts) (handleInclusionProof index' treeSize')
      (run (eventStep C P opts) s₁ between) turns' resp' s₂) :
    (resp.index = resp'.index → resp.leafHash = resp'.leafHash) ∧
      (resp.treeSize = resp'.treeSize → resp.rootHash = resp'.rootHash) := by
  obtain ⟨hbefore, hbetween⟩ := forall_mem_append.mp hevents
  obtain ⟨es, -, hs⟩ := upheld_events hR hrep hP Core.init_upheld hbefore
  obtain ⟨es₁, -, hs₁, hshown⟩ := (handleInclusionProof_shows hR hrep hP hs _ _).answered h
  obtain ⟨es₂, hpre₂, hs₂⟩ := upheld_events hR hrep hP hs₁ hbetween
  obtain ⟨es₃, hpre₃, -, hshown'⟩ := (handleInclusionProof_shows hR hrep hP hs₂ _ _).answered h'
  obtain ⟨rest, rfl⟩ := hpre₂.trans hpre₃
  constructor
  · intro hindex
    obtain ⟨e, he, hleaf⟩ := hshown.leaf
    obtain ⟨e', he', hleaf'⟩ := hshown'.leaf
    rw [← hindex, getElem?_append_left (List.getElem?_eq_some_iff.mp he).1, he] at he'
    rw [hleaf, hleaf', Option.some.inj he']
  · intro hsize
    rw [hshown.root, hshown'.root, ← hsize, take_append_of_le_length hshown.size]

abbrev sampleAsk (s : State Core.sampleRange) :=
  Prog.exec (serve .sample Core.sampleProofs {}) (handleInclusionProof 0 none).run s
    [appendBetween, {}, {}, {}, {}]

abbrev sampleRestarted :=
  run (eventStep .sample Core.sampleProofs {}) (sampleAsk sampleServed).1 restart

theorem inclusion_answers_agree_restart : ∃ resp ∈ answerOf (sampleAsk sampleServed),
    ∃ resp' ∈ answerOf (sampleAsk sampleRestarted),
      resp.index = resp'.index → resp.leafHash = resp'.leafHash := by
  have hsome : (answerOf (sampleAsk sampleServed)).isSome ∧
      (answerOf (sampleAsk sampleRestarted)).isSome := by decide +kernel
  obtain ⟨⟨resp, hresp⟩, resp', hresp'⟩ := hsome.imp isSome_iff_exists.mp isSome_iff_exists.mp
  obtain ⟨s₁, h⟩ := exists_answered (Possible .sample Core.sampleProofs {})
    (by decide +kernel) hresp
  obtain ⟨s₂, h'⟩ := exists_answered (Possible .sample Core.sampleProofs {})
    (by decide +kernel) hresp'
  rw [sampleRestarted, congrArg Prod.fst h.returned] at h'
  exact ⟨resp, hresp, resp', hresp', (inclusion_answers_agree (leafList_lawful _ _)
    (leafList_reports _ _) (wholeTree_lawful _ _) (by decide +kernel) h h').1⟩

/-! ## Consistency proofs and sizes -/

def Call.closes : Call → Bool
  | .root | .prove _ => true
  | .size | .get _ | .latestCheckpoint => false

def Steady (C : Crypto) (P : ProofImpl Bytes) (opts : Core.Options) (c : Call) (s : State R)
    (turn : Turn) : Prop :=
  Possible C P opts c s turn ∧ (c.closes = true →
    (run (eventStep C P opts) s turn.events).db.readSize = s.db.readSize)

instance (c : Call) (s : State R) (turn : Turn) : Decidable (Steady C P opts c s turn) :=
  inferInstanceAs (Decidable (_ ∧ _))

/-- The answer is about the log `es`: its new root is the root at the new size, and the proof leads
from its old root to it. -/
structure ConsistencyShown (C : Crypto) (P : ProofImpl Bytes) (es : List Entry)
    (resp : ConsistencyResponse) : Prop where
  size : resp.newSize ≤ es.length
  root : resp.newRoot = rfc6962Root C ((es.take resp.newSize).map Entry.leafHash)
  consistent : ∀ oldRoot, resp.oldRoot = some oldRoot →
    P.verifyConsistency resp.oldSize resp.newSize resp.proof oldRoot resp.newRoot = .ok ()

structure SizeShown (C : Crypto) (es : List Entry) (resp : SizeResponse) : Prop where
  size : resp.size ≤ es.length
  root : resp.rootHash = rfc6962Root C ((es.take resp.size).map Entry.leafHash)

lemma eq_of_readSize {db db' : Db} {es' : List Entry} (h : db.Holds C es) (h' : db'.Holds C es')
    (hpre : es <+: es') (hsize : db'.readSize = db.readSize) : es = es' := by
  rw [h.size, h'.size] at hsize
  exact hpre.eq_of_length (Except.ok.inj hsize).symm

lemma take_of_prefix {es' : List Entry} (hpre : es <+: es') : es'.take es.length = es := by
  obtain ⟨rest, rfl⟩ := hpre
  exact take_left

section
include hR hrep hP

lemma handleConsistencyProof_serves (h : s.Upheld C RngHolds es) (old : Nat)
    (new : Option Nat) :
    Serves C P opts (Steady C P opts)
      (fun resp s' => ∃ es', s'.db.Holds C es' ∧ ConsistencyShown C P es' resp)
      (handleConsistencyProof old new) s := by
  have hok : ∀ c (s : State R) turn, Steady C P opts c s turn → Possible C P opts c s turn :=
    fun _ _ _ h => h.1
  refine serves_check fun oldSize _ => ?_
  refine serves_ask hR hrep hP hok h fun _ es₁ s₁ size _ _ _ h₁ _ => ?_
  refine serves_check fun newSize _ => ?_
  refine serves_ask hR hrep hP hok h₁ fun _ es₂ s₂ current _ _ _ h₂ hcurrent => ?_
  refine serves_check fun _ hsame => ?_
  rw [ensure_ok, show current = es₂.length from hcurrent] at hsame
  refine serves_ask hR hrep hP hok h₂ fun turn₃ es₃ s₃ proof hturn₃ hpre₃ hdb₃ h₃ hproof => ?_
  have hsame₃ := eq_of_readSize h₂.inv.db hdb₃ hpre₃ (hturn₃.2 rfl)
  subst hsame₃
  refine serves_ask hR hrep hP hok h₃ fun turn₄ es₄ s₄ root hturn₄ hpre₄ hdb₄ h₄ hroot => ?_
  have hsame₄ := eq_of_readSize h₃.inv.db hdb₄ hpre₄ (hturn₄.2 rfl)
  subst hsame₄
  refine serves_call fun turn₅ hturn₅ => serves_check fun latest hlatest => ?_
  obtain ⟨es₅, hpre₅, -, h₅, hanswer⟩ := serve_answers hR hrep hP h₄ hturn₅.1
  have htake : es₅.take newSize = es₂ := by
    rw [hsame]
    exact take_of_prefix hpre₅
  obtain ⟨⟨holder, -⟩, hverified⟩ := hproof
  refine serves_pure ⟨es₅, h₅.inv.db, ?_, ?_, fun oldRoot hold => ?_⟩
  · rw [hsame]
    exact hpre₅.length_le
  · rw [htake]
    exact hroot
  · -- the old root is that of a record with the old size, so it is the root of the same entries
    simp only [map_eq_some_iff, filter_eq_some_iff, decide_eq_true_eq] at hold
    obtain ⟨cp, ⟨hcp, hcpsize⟩, rfl⟩ := hold
    have hcommits := hanswer _ (bestEffort_some (hcp ▸ hlatest)) cp rfl
    have holdroot := hcommits.root
    rw [hcpsize, ← Nat.min_eq_left holder, ← take_take, htake, map_take] at holdroot
    have hnew : root = rfc6962Root C ((es₂.map Entry.leafHash).take newSize) := by
      rw [take_of_length_le (by rw [length_map]; omega)]
      exact hroot
    rw [holdroot, hnew]
    exact hverified

lemma handleSize_serves (h : s.Upheld C RngHolds es) :
    Serves C P opts (Steady C P opts)
      (fun resp s' => ∃ es', s'.db.Holds C es' ∧ SizeShown C es' resp) handleSize s := by
  have hok : ∀ c (s : State R) turn, Steady C P opts c s turn → Possible C P opts c s turn :=
    fun _ _ _ h => h.1
  refine serves_ask hR hrep hP hok h fun _ es₁ s₁ size _ _ _ h₁ hsize => ?_
  refine serves_ask hR hrep hP hok h₁ fun turn₂ es₂ s₂ root hturn₂ hpre₂ hdb₂ h₂ hroot => ?_
  have hsame₂ := eq_of_readSize h₁.inv.db hdb₂ hpre₂ (hturn₂.2 rfl)
  subst hsame₂
  refine serves_call fun turn₃ hturn₃ => serves_check fun latest _ => ?_
  obtain ⟨es₃, hpre₃, -, h₃, -⟩ := serve_answers hR hrep hP h₂ hturn₃.1
  refine serves_pure ⟨es₃, h₃.inv.db, ?_, ?_⟩
  · rw [show size = es₁.length from hsize]
    exact hpre₃.length_le
  · rw [show size = es₁.length from hsize, take_of_prefix hpre₃]
    exact hroot

/-- **Served consistency proofs and sizes are consistent while the log is steady**: when it does not
grow between a handler's last look at the size and its look at the root. -/
theorem answers_consistent_of_steady (before : List Event)
    (hbefore : ∀ ev ∈ before, ev.IsUtf8) (turns : List Turn) (s' : State R) :
    (∀ old new resp, Answered C P opts (Steady C P opts) (handleConsistencyProof old new)
      (run (eventStep C P opts) (Core.init R) before) turns resp s' →
      ∃ es, s'.db.Holds C es ∧ ConsistencyShown C P es resp) ∧
    ∀ resp, Answered C P opts (Steady C P opts) handleSize
      (run (eventStep C P opts) (Core.init R) before) turns resp s' →
      ∃ es, s'.db.Holds C es ∧ SizeShown C es resp := by
  obtain ⟨es, -, hs⟩ := upheld_events hR hrep hP Core.init_upheld hbefore
  exact ⟨fun old new resp h => (handleConsistencyProof_serves hR hrep hP hs old new).answered h,
    fun resp h => (handleSize_serves hR hrep hP hs).answered h⟩

end

theorem answers_consistent_of_steady_sample :
    ∃ resp s', Answered .sample Core.sampleProofs {} (Steady .sample Core.sampleProofs {})
        (handleConsistencyProof 1 none) sampleServed [appendBetween, {}, {}, {}, {}] resp s' ∧
      resp.newSize = 2 ∧ resp.oldRoot.isSome ∧
      ∃ es, s'.db.Holds .sample es ∧ ConsistencyShown .sample Core.sampleProofs es resp := by
  have hsome : (answerOf (Prog.exec (serve .sample Core.sampleProofs {})
      (handleConsistencyProof 1 none).run sampleServed [appendBetween, {}, {}, {}, {}])).map
      (fun resp => (resp.newSize, resp.oldRoot.isSome)) = some (2, true) := by
    decide +kernel
  obtain ⟨resp, hresp, hfields⟩ := map_eq_some_iff.mp hsome
  obtain ⟨hsize, hold⟩ := Prod.mk.inj hfields
  obtain ⟨s', h⟩ := exists_answered (Steady .sample Core.sampleProofs {}) (by decide +kernel) hresp
  exact ⟨resp, s', h, hsize, hold,
    (answers_consistent_of_steady (leafList_lawful _ _) (leafList_reports _ _)
      (wholeTree_lawful _ _) sampleBefore (by decide +kernel) _ s').1 1 none resp h⟩

/-! ## A log that grows in between -/

def rootAt (db : Db) (n : Nat) : Bytes :=
  rfc6962Root .sample ((db.leaf.toList.map Prod.snd).take n)

lemma rootAt_of_holds {db : Db} (h : db.Holds .sample es) (n : Nat) :
    rootAt db n = rfc6962Root .sample ((es.take n).map Entry.leafHash) := by
  rw [rootAt, h.leaf.values_eq, map_take]

/-- **The root of a later log.** An append between the size and the root makes both handlers answer
with the size of one log and the root of another. -/
theorem root_of_later_log :
    (∃ resp s', Answered .sample Core.sampleProofs {} (Possible .sample Core.sampleProofs {})
        handleSize sampleServed [{}, appendBetween, {}] resp s' ∧ resp.size = 1 ∧
      ∀ es, s'.db.Holds .sample es → ¬ SizeShown .sample es resp) ∧
    ∃ resp s', Answered .sample Core.sampleProofs {} (Possible .sample Core.sampleProofs {})
        (handleConsistencyProof 1 none) sampleServed [{}, {}, {}, appendBetween, {}] resp s' ∧
      resp.newSize = 1 ∧
      ∀ es, s'.db.Holds .sample es → ¬ ConsistencyShown .sample Core.sampleProofs es resp := by
  let sized := Prog.exec (serve .sample Core.sampleProofs {}) handleSize.run sampleServed
    [{}, appendBetween, {}]
  let consistent := Prog.exec (serve .sample Core.sampleProofs {})
    (handleConsistencyProof 1 none).run sampleServed [{}, {}, {}, appendBetween, {}]
  have hsized : (answerOf sized).map (fun resp =>
      (resp.size, decide (resp.rootHash = rootAt sized.1.db resp.size))) = some (1, false) := by
    decide +kernel
  have hconsistent : (answerOf consistent).map (fun resp => (resp.newSize,
      decide (resp.newRoot = rootAt consistent.1.db resp.newSize))) = some (1, false) := by
    decide +kernel
  constructor
  · obtain ⟨resp, hresp, hfields⟩ := map_eq_some_iff.mp hsized
    obtain ⟨hsize, hroot⟩ := Prod.mk.inj hfields
    obtain ⟨s', h⟩ := exists_answered (Possible .sample Core.sampleProofs {}) (by decide +kernel)
      hresp
    refine ⟨resp, s', h, hsize, fun es hes hshown => of_decide_eq_false hroot ?_⟩
    rw [show sized.1 = s' from congrArg Prod.fst h.returned, rootAt_of_holds hes]
    exact hshown.root
  · obtain ⟨resp, hresp, hfields⟩ := map_eq_some_iff.mp hconsistent
    obtain ⟨hsize, hroot⟩ := Prod.mk.inj hfields
    obtain ⟨s', h⟩ := exists_answered (Possible .sample Core.sampleProofs {}) (by decide +kernel)
      hresp
    refine ⟨resp, s', h, hsize, fun es hes hshown => of_decide_eq_false hroot ?_⟩
    rw [show consistent.1 = s' from congrArg Prod.fst h.returned, rootAt_of_holds hes]
    exact hshown.root

end Stele.Api
