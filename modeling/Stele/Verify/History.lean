import Stele.Lib.AuditPaths
import Stele.LogEntry.Entry
import Stele.Verify.Verifier

/-!
# Histories that an auditor accepts (`pkg/verify`)
-/

namespace Stele

open Lib List Option

variable (C : Crypto) (P : ProofImpl Bytes)

def Verifier.inclusion (_v : Verifier) (entry : Option Entry) (treeSize : Nat) (proof : List Bytes)
    (root : Bytes) : Res Unit :=
  match entry with
  | none => .error (.panic "invalid memory address or nil pointer dereference")
  | some e => do
    wrapErr "entry self-verify: %w" [] (e.verify C)
    ensure (e.index < treeSize)
      (errorf "entry index %d not in tree of size %d" [.nat e.index, .nat treeSize])
    (P.verifyInclusion e.index treeSize e.leafHash proof root).mapError .err

def Verifier.consistency (_v : Verifier) (oldSize : Nat) (oldRoot : Bytes) (newSize : Nat)
    (newRoot : Bytes) (proof : List Bytes) : Res Unit :=
  (P.verifyConsistency oldSize newSize proof oldRoot newRoot).mapError .err

/-! ## `EntryChain` -/

def checkEntries : Nat → Option Entry → List (Option Entry) → Res Unit
  | _, _, [] => .ok ()
  | _, _, none :: _ => .error (.panic "invalid memory address or nil pointer dereference")
  | i, prev, some e :: entries => do
    wrapErr "chain[%d]: %w" [.nat i] (e.verify C)
    wrapErr "chain[%d]: %w" [.nat i] (e.verifyChain prev)
    checkEntries (i + 1) (some e) entries

def Verifier.entryChain (_v : Verifier) (entries : List (Option Entry)) : Res Unit := do
  ensure (entries ≠ []) (errorf "chain: empty entry list" [])
  checkEntries C 0 none entries

variable {C P} {i : Nat} {u : Unit}

lemma checkEntries_ok {prev : Option Entry} {entries : List (Option Entry)} :
    checkEntries C i prev entries = .ok u ↔
      ∃ es : List Entry, entries = es.map some ∧ Entry.Chained prev es ∧ ∀ e ∈ es, e.Sound C := by
  induction entries generalizing i prev with
  | nil =>
    simp only [checkEntries, true_iff]
    exact ⟨[], rfl, trivial, by simp⟩
  | cons o entries ih =>
    cases o with
    | none =>
      simp only [checkEntries, reduceCtorEq, false_iff, not_exists, not_and]
      intro es hes
      cases es <;> simp at hes
    | some e =>
      simp only [checkEntries, bind_ok, wrapErr_ok, Entry.verify_ok, Entry.verifyChain_ok, ih,
        exists_const]
      constructor
      · rintro ⟨hsound, hfollows, es, rfl, hchained, hall⟩
        refine ⟨e :: es, rfl, ⟨hfollows, hchained⟩, ?_⟩
        rintro x (_ | ⟨_, hx⟩)
        · exact hsound
        · exact hall x hx
      · rintro ⟨es, hes, hchained, hall⟩
        obtain ⟨x, es, rfl, hx, rfl⟩ := map_eq_cons_iff.mp hes.symm
        cases hx
        exact ⟨hall e mem_cons_self, hchained.1, es, rfl, hchained.2,
          fun y hy => hall y (mem_cons_of_mem _ hy)⟩

variable {v : Verifier}

lemma Verifier.entryChain_ok {entries : List (Option Entry)} :
    v.entryChain C entries = .ok u ↔ entries ≠ [] ∧
      ∃ es : List Entry, entries = es.map some ∧ Entry.Chained none es ∧ ∀ e ∈ es, e.Sound C := by
  simp only [entryChain, bind_ok, ensure_ok, exists_const, checkEntries_ok]

/-! ### The head hash determines the log -/

namespace Entry

variable (C) in
structure Accepted (es : List Entry) : Prop where
  chained : Chained none es
  sound : ∀ e ∈ es, e.Sound C
  fits : ∀ e ∈ es, e.Fits

variable {es : List Entry} {e : Entry}

lemma Accepted.prevHash_length (h : Accepted C es) (he : e ∈ es) : e.prevHash.length = 32 :=
  h.chained.prevHash_length (by simp) h.sound he

lemma Accepted.init (h : Accepted C (es ++ [e])) :
    Accepted C es where
  chained := (chained_concat.mp h.chained).1
  sound x hx := h.sound x (mem_append_left _ hx)
  fits x hx := h.fits x (mem_append_left _ hx)

lemma Accepted.index_last (h : Accepted C (es ++ [e])) : e.index = es.length := by
  have hidx := h.chained.index_eq (i := es.length) (e := e) (by simp)
  simpa [nextIndex] using hidx

lemma Accepted.last_of_agree {fs : List Entry} {f : Entry} (hes : Accepted C (es ++ [e]))
    (hfs : Accepted C (fs ++ [f])) (h : e.Agree f) :
    es.getLast?.map entryHash = fs.getLast?.map entryHash := by
  have hlen : es.length = fs.length := by rw [← hes.index_last, ← hfs.index_last, h.index]
  have hfe := (chained_concat.mp hes.chained).2
  have hff := (chained_concat.mp hfs.chained).2
  unfold lastOr at hfe hff
  cases hl : es.getLast? with
  | none =>
    have hnil : fs = [] := by
      rw [getLast?_eq_none_iff.mp hl] at hlen
      exact length_eq_zero_iff.mp hlen.symm
    rw [hnil]
    rfl
  | some =>
    cases hl' : fs.getLast? with
    | none =>
      rw [getLast?_eq_none_iff.mp hl'] at hlen
      rw [length_eq_zero_iff.mp hlen] at hl
      cases hl
    | some =>
      simp only [hl, hl', Follows] at hfe hff
      rw [map_some, map_some, ← hfe.2, ← hff.2, h.prevHash]

lemma Accepted.agree {fs : List Entry} (hes : Accepted C es) (hfs : Accepted C fs)
    (hcf : C.CollisionFree ((es ++ fs).flatMap (hashed C)))
    (hhead : es.getLast?.map entryHash = fs.getLast?.map entryHash) : Forall₂ Agree es fs := by
  -- backwards along the chains: where the hashes agree the entries do, and so do their links
  induction es using reverseRecOn generalizing fs with
  | nil =>
    cases fs using reverseRecOn with
    | nil => exact .nil
    | append_singleton => simp at hhead
  | append_singleton es e ih =>
    cases fs using reverseRecOn with
    | nil => simp at hhead
    | append_singleton fs f =>
      simp only [getLast?_concat, map_some, Option.some.injEq] at hhead
      have hagree : e.Agree f := by
        refine (hes.sound e (by simp)).agree_of_entryHash (hfs.sound f (by simp))
          (hes.fits e (by simp)) (hfs.fits f (by simp)) (hes.prevHash_length (by simp))
          (hfs.prevHash_length (by simp)) ?_ hhead
        have hpair : e.hashed C ++ f.hashed C = [e, f].flatMap (hashed C) := by simp
        rw [hpair]
        exact hcf.flatMap_subset (by simp)
      have hsub : es ++ fs ⊆ es ++ [e] ++ (fs ++ [f]) := by
        intro x hx
        simp only [mem_append] at hx ⊢
        tauto
      have hinit := ih hes.init hfs.init (hcf.flatMap_subset hsub) (hes.last_of_agree hfs hagree)
      exact rel_append hinit (.cons hagree .nil)

end Entry

def lastHash (entries : List (Option Entry)) : Option Bytes :=
  entries.getLast?.join.map Entry.entryHash

lemma lastHash_map (es : List Entry) :
    lastHash (es.map some) = es.getLast?.map Entry.entryHash := by
  rw [lastHash, getLast?_map]
  cases es.getLast? <;> rfl

/-- **The head hash determines the whole log.** Two lists of entries that `EntryChain` accepts and
that end in one hash have one length and agree on every hashed field, unless two of the messages
hashed in them collide. -/
theorem head_determines_log {v : Verifier} {entries entries' : List (Option Entry)}
    (h : v.entryChain C entries = .ok ()) (h' : v.entryChain C entries' = .ok ())
    (hfit : ∀ e, some e ∈ entries ++ entries' → e.Fits)
    (hcf : C.CollisionFree ((entries ++ entries').reduceOption.flatMap (Entry.hashed C)))
    (hhead : lastHash entries = lastHash entries') :
    entries.length = entries'.length ∧
      ∀ (i : Nat) (e e' : Entry), entries[i]? = some (some e) → entries'[i]? = some (some e') →
        e.Agree e' := by
  obtain ⟨-, es, rfl, hchained, hsound⟩ := Verifier.entryChain_ok.mp h
  obtain ⟨-, fs, rfl, hchained', hsound'⟩ := Verifier.entryChain_ok.mp h'
  have hagree : Forall₂ Entry.Agree es fs := by
    refine Entry.Accepted.agree (C := C)
      ⟨hchained, hsound, fun e he => hfit e (mem_append_left _ (mem_map_of_mem he))⟩
      ⟨hchained', hsound', fun e he => hfit e (mem_append_right _ (mem_map_of_mem he))⟩
      ?_ ?_
    · simpa [reduceOption, filterMap_map] using hcf
    · simpa only [lastHash_map] using hhead
  refine ⟨by simpa using hagree.length_eq, fun i e e' hi hi' => ?_⟩
  simp only [getElem?_map, map_eq_some_iff, Option.some.injEq] at hi hi'
  obtain ⟨x, hx, rfl⟩ := hi
  obtain ⟨y, hy, rfl⟩ := hi'
  obtain ⟨hlt, rfl⟩ := List.getElem?_eq_some_iff.mp hx
  obtain ⟨hlt', rfl⟩ := List.getElem?_eq_some_iff.mp hy
  exact hagree.get hlt hlt'

def auditedEnvelope (evidence : Bytes) : Envelope :=
  let env : Envelope := {
    producerID := lit "p"
    timeNanos := 7
    source := lit "s"
    data := lit "d"
    publicKey := replicate 32 5
    type := lit "software"
    evidenceHash := Crypto.sample.sha256 (lit "x")
    evidence := evidence
    signature := []
    quantumPublicKey := []
    quantumSignature := [] }
  { env with signature := Crypto.sample.edSign (replicate 32 5) env.canonical }

def auditedFirst (evidence : Bytes) : Entry :=
  .new Crypto.sample 1 0 none (auditedEnvelope evidence) false

def auditedSecond (evidence : Bytes) : Entry :=
  .new Crypto.sample 2 1 (some (auditedFirst evidence)) (auditedEnvelope evidence) true

lemma auditedEnvelope_fits {evidence : Bytes} : (auditedEnvelope evidence).Fits where
  producerID := show (lit "p").length < 2 ^ 32 by decide
  timeNanos := show IsInt64 7 by decide
  source := show (lit "s").length < 2 ^ 32 by decide
  data := show (lit "d").length < 2 ^ 32 by decide
  publicKey := show (replicate 32 5).length < 2 ^ 32 by decide
  type := show (lit "software").length < 2 ^ 32 by decide
  evidenceHash := show (Crypto.sample.sha256 (lit "x")).length < 2 ^ 32 by decide
  quantumPublicKey := show ([] : Bytes).length < 2 ^ 32 by decide

lemma audited_fits {evidence : Bytes} {e : Entry}
    (h : e = auditedFirst evidence ∨ e = auditedSecond evidence) : e.Fits := by
  rcases h with rfl | rfl
  · exact ⟨show 0 < 2 ^ 64 by decide, show IsInt64 1 by decide,
      fun env henv => by cases henv; exact auditedEnvelope_fits⟩
  · exact ⟨show 1 < 2 ^ 64 by decide, show IsInt64 2 by decide,
      fun env henv => by cases henv; exact auditedEnvelope_fits⟩

theorem head_determines_log_sample :
    auditedSecond [] ≠ auditedSecond (lit "x") ∧
      (auditedSecond []).Agree (auditedSecond (lit "x")) := by
  let v : Verifier := { origin := [], rootPublicKey := [], chain := none }
  let log (evidence : Bytes) := [some (auditedFirst evidence), some (auditedSecond evidence)]
  have hagree := @head_determines_log .sample v (log []) (log (lit "x")) (by decide +kernel)
    (by decide +kernel) ?_ (by decide +kernel) (by decide +kernel)
  · exact ⟨by decide, hagree.2 1 _ _ rfl rfl⟩
  · intro e he
    simp only [log, cons_append, nil_append, mem_cons, not_mem_nil,
      Option.some.injEq, or_false] at he
    rcases he with he | he | he | he
    · exact audited_fits (.inl he)
    · exact audited_fits (.inr he)
    · exact audited_fits (.inl he)
    · exact audited_fits (.inr he)

/-! ## Segments of a log -/

namespace Entry

/-- What the documentation of `EntryChain` asks of a list: entries that verify, each linked to its
predecessor, the first one with the zero hash exactly when it is entry 0. A nil element is no entry
that verifies. -/
structure Segment (C : Crypto) (entries : List (Option Entry)) (es : List Entry) : Prop where
  entries : entries = es.map some
  sound : ∀ e ∈ es, e.Sound C
  linked : es.IsChain fun e f => f.index = e.index + 1 ∧ f.prevHash = e.entryHash
  first : ∀ e, es.head? = some e → (e.prevHash = zeroHash ↔ e.index = 0)

lemma chained_some_iff {p : Entry} {es : List Entry} : Chained (some p) es ↔
    (p :: es).IsChain fun e f => f.index = e.index + 1 ∧ f.prevHash = e.entryHash := by
  induction es generalizing p with
  | nil => simp [Chained]
  | cons e es ih => rw [Chained, isChain_cons_cons, ih, Follows]

/-- **A list from the start of a log is a segment that begins at entry 0.** -/
theorem chained_none_iff {es : List Entry} (hne : es ≠ []) : Chained none es ↔
    (es.IsChain fun e f => f.index = e.index + 1 ∧ f.prevHash = e.entryHash) ∧
      ∃ e, es.head? = some e ∧ e.index = 0 ∧ e.prevHash = zeroHash := by
  cases es with
  | nil => exact absurd rfl hne
  | cons => simp [Chained, Follows, chained_some_iff, and_comm]

end Entry

/-- **`EntryChain` accepts the segments that begin at entry 0.** So of a list that is not empty it
decides whether it is a segment, exactly when the list begins at entry 0 or is no segment. -/
theorem entryChain_segment_iff (C : Crypto) (v : Verifier) (entries : List (Option Entry))
    (hne : entries ≠ []) :
    (v.entryChain C entries = .ok () ↔ ∃ es, Entry.Segment C entries es ∧
      ∃ e, es.head? = some e ∧ e.index = 0) ∧
    ((v.entryChain C entries = .ok () ↔ ∃ es, Entry.Segment C entries es) ↔
      ∀ es, Entry.Segment C entries es → ∃ e, es.head? = some e ∧ e.index = 0) := by
  have hiff : v.entryChain C entries = .ok () ↔ ∃ es, Entry.Segment C entries es ∧
      ∃ e, es.head? = some e ∧ e.index = 0 := by
    rw [Verifier.entryChain_ok]
    constructor
    · rintro ⟨-, es, rfl, hchained, hsound⟩
      have hes : es ≠ [] := fun h => hne (by rw [h]; rfl)
      obtain ⟨hlinked, e, hhead, hindex, hprev⟩ := (Entry.chained_none_iff hes).mp hchained
      refine ⟨es, ⟨rfl, hsound, hlinked, fun f hf => ?_⟩, e, hhead, hindex⟩
      cases hhead.symm.trans hf
      simp [hindex, hprev]
    · rintro ⟨es, hseg, e, hhead, hindex⟩
      have hes : es ≠ [] := fun h => by simp [h] at hhead
      refine ⟨hne, es, hseg.entries, (Entry.chained_none_iff hes).mpr ?_, hseg.sound⟩
      exact ⟨hseg.linked, e, hhead, hindex, (hseg.first e hhead).mpr hindex⟩
  refine ⟨hiff, ?_⟩
  rw [hiff]
  constructor
  · intro h es hseg
    obtain ⟨es', hseg', hstart⟩ := h.mpr ⟨es, hseg⟩
    have hsame : es' = es := by
      have hmap := hseg'.entries.symm.trans hseg.entries
      exact map_injective_iff.mpr (some_injective Entry) hmap
    exact hsame ▸ hstart
  · intro h
    exact ⟨fun ⟨es, hseg, _⟩ => ⟨es, hseg⟩, fun ⟨es, hseg⟩ => ⟨es, hseg, h es hseg⟩⟩

theorem entryChain_segment_iff_start :
    ∃ es, Entry.Segment .sample [some (auditedFirst []), some (auditedSecond [])] es ∧
      ∃ e, es.head? = some e ∧ e.index = 0 := by
  let v : Verifier := { origin := [], rootPublicKey := [], chain := none }
  refine (entryChain_segment_iff .sample v _ (by simp)).1.mp ?_
  decide +kernel

/-- **A segment from a later entry on is refused.** -/
theorem later_segment_refused :
    let v : Verifier := { origin := [], rootPublicKey := [], chain := none }
    Entry.Segment .sample [some (auditedSecond [])] [auditedSecond []] ∧
      (auditedSecond []).index = 1 ∧
      v.entryChain .sample [some (auditedSecond [])] = .error (.err (.wrap "chain[%d]: %w" [.nat 0]
        (.errorf "entry 0: PrevHash must be zero" []))) := by
  refine ⟨⟨rfl, ?_, .singleton _, ?_⟩, rfl, by decide +kernel⟩
  · intro e he
    rw [mem_singleton.mp he]
    exact Entry.verify_ok.mp (show (auditedSecond []).verify .sample = .ok () by decide +kernel)
  · rintro e ⟨⟩
    decide +kernel

/-! ## `AnchorChain` -/

structure AnchorRecord where
  checkpoint : Option Checkpoint

section
variable (C P)

def Verifier.anchorLink (v : Verifier) (i : Nat) (c : Checkpoint) (proof : List Bytes) :
    Option Checkpoint → Res Unit
  | none => .ok ()
  | some prev =>
    if c.size < prev.size then
      .error (errorf "anchor chain[%d]: size %d < previous %d"
        [.nat i, .nat c.size, .nat prev.size])
    else if c.size = prev.size then
      ensure (c.rootHash = prev.rootHash)
        (errorf "anchor chain[%d]: same size %d but different root" [.nat i, .nat c.size])
    else
      wrapErr "anchor chain[%d]: %w" [.nat i]
        (v.consistency P prev.size prev.rootHash c.size c.rootHash proof)

def Verifier.checkAnchors (v : Verifier) :
    Nat → Option Checkpoint → List (Option AnchorRecord × List Bytes) → Res Unit
  | _, _, [] => .ok ()
  | _, _, (none, _) :: _ => .error (.panic "invalid memory address or nil pointer dereference")
  | i, prev, (some rec, proof) :: records =>
    match rec.checkpoint with
    | none => .error (errorf "anchor chain[%d]: missing checkpoint" [.nat i])
    | some c => do
      wrapErr "anchor chain[%d]: %w" [.nat i] (v.checkpoint C c)
      v.anchorLink P i c proof prev
      v.checkAnchors (i + 1) (some c) records

def Verifier.anchorChain (v : Verifier) (records : List (Option AnchorRecord))
    (consistencyProofs : List (List Bytes)) : Res Unit := do
  ensure (records ≠ []) (errorf "anchor chain: empty" [])
  ensure (consistencyProofs.length = records.length)
    (errorf "anchor chain: %d records but %d proofs"
      [.nat records.length, .nat consistencyProofs.length])
  v.checkAnchors C P 0 none (records.zip consistencyProofs)

end

structure AnchorStep (P : ProofImpl Bytes) (proofs : List (List Bytes)) (prev c : Checkpoint) :
    Prop where
  size : prev.size ≤ c.size
  same : prev.size = c.size → prev.rootHash = c.rootHash
  more : prev.size < c.size → ∃ proof ∈ proofs,
    P.verifyConsistency prev.size c.size proof prev.rootHash c.rootHash = .ok ()

variable {proofs : List (List Bytes)}

lemma Verifier.anchorLink_ok {prev c : Checkpoint} {proof : List Bytes} (hproof : proof ∈ proofs)
    (h : v.anchorLink P i c proof (some prev) = .ok u) : AnchorStep P proofs prev c := by
  rw [anchorLink] at h
  split at h
  · cases h
  · rename_i hle
    split at h
    · rename_i heq
      rw [ensure_ok] at h
      exact ⟨Nat.le_of_eq heq.symm, fun _ => h.symm, fun hlt => by omega⟩
    · rename_i hne
      rw [wrapErr_ok, consistency, mapError_ok] at h
      exact ⟨by omega, fun heq => absurd heq.symm hne, fun _ => ⟨proof, hproof, h⟩⟩

lemma Verifier.checkAnchors_ok {prev : Option Checkpoint}
    {records : List (Option AnchorRecord × List Bytes)} (hproofs : ∀ r ∈ records, r.2 ∈ proofs)
    (h : v.checkAnchors C P i prev records = .ok ()) :
    ∃ cs : List Checkpoint, records.map Prod.fst = cs.map (fun c => some ⟨some c⟩) ∧
      (∀ c ∈ cs, v.checkpoint C c = .ok ()) ∧
      IsChain (AnchorStep P proofs) (prev.toList ++ cs) := by
  induction records generalizing i prev with
  | nil => exact ⟨[], rfl, by simp, by cases prev <;> simp⟩
  | cons r records ih =>
    obtain ⟨rec, proof⟩ := r
    match rec, h with
    | some ⟨some c⟩, h =>
      simp only [checkAnchors, bind_ok, wrapErr_ok] at h
      obtain ⟨_, hc, _, hlink, hrest⟩ := h
      obtain ⟨cs, hcs, hall, hchain⟩ := ih (fun r hr => hproofs r (mem_cons_of_mem _ hr)) hrest
      refine ⟨c :: cs, by rw [map_cons, map_cons, hcs], ?_, ?_⟩
      · rintro x (_ | ⟨_, hx⟩)
        · exact hc
        · exact hall x hx
      · cases prev with
        | none => exact hchain
        | some =>
          have hstep := anchorLink_ok (hproofs _ mem_cons_self) hlink
          exact isChain_cons_cons.mpr ⟨hstep, hchain⟩

/-- What a record says about a later one: it is no larger, of one size they have one root, and it
is the beginning of any list of leaves that the later one is the root of. -/
structure Earlier (C : Crypto) (P : ProofImpl Bytes) (proofs : List (List Bytes))
    (a b : Checkpoint) : Prop where
  size : a.size ≤ b.size
  same : a.size = b.size → a.rootHash = b.rootHash
  prefix_root : ∀ leaves : List Bytes,
    P.ConsistencySound (hashChildren C) (emptyRoot C) leaves proofs → b.size ≤ leaves.length →
    b.rootHash = rfc6962Root C (leaves.take b.size) →
    a.rootHash = rfc6962Root C (leaves.take a.size)

lemma Earlier.refl (a : Checkpoint) : Earlier C P proofs a a :=
  ⟨Nat.le_refl _, fun _ => rfl, fun _ _ _ h => h⟩

lemma Earlier.trans {a b c : Checkpoint} (hab : Earlier C P proofs a b)
    (hbc : Earlier C P proofs b c) : Earlier C P proofs a c where
  size := Nat.le_trans hab.size hbc.size
  same heq := by
    have hb : a.size = b.size := Nat.le_antisymm hab.size (heq ▸ hbc.size)
    rw [hab.same hb, hbc.same (hb ▸ heq)]
  prefix_root leaves hsound hlen hroot :=
    hab.prefix_root leaves hsound (Nat.le_trans hbc.size hlen)
      (hbc.prefix_root leaves hsound hlen hroot)

lemma AnchorStep.earlier {a b : Checkpoint} (ha : 0 < a.size) (h : AnchorStep P proofs a b) :
    Earlier C P proofs a b where
  size := h.size
  same := h.same
  prefix_root leaves hsound hlen hroot := by
    rcases Nat.eq_or_lt_of_le h.size with heq | hlt
    · rw [h.same heq, hroot, heq]
    · obtain ⟨proof, hproof, hver⟩ := h.more hlt
      rw [hroot] at hver
      exact hsound proof hproof _ _ _ ha h.size hlen hver

/-- **An accepted anchor chain is one append-only history.** For any two records, not only for
neighbours: the earlier one is no larger, records of one size have one root, and when the later one
is the root of a list of leaves the earlier one is the root of its beginning. Every record carries a
checkpoint of the verifier's origin that the operator has signed. -/
theorem anchored_history {v : Verifier} {records : List (Option AnchorRecord)}
    {proofs : List (List Bytes)} (h : v.anchorChain C P records proofs = .ok ())
    (hpos : ∀ c, some ⟨some c⟩ ∈ records → 0 < c.size) :
    ∃ cs : List Checkpoint, records = cs.map (fun c => some ⟨some c⟩) ∧
      (∀ c ∈ cs, c.origin = v.origin ∧
        if c.memberSigs ≠ [] then c.GroupSigned C v.thresholdGroup
        else ∃ ch pub qpub, v.chain = some ch ∧ c.ChainSigned C ch v.rootPublicKey pub qpub) ∧
      ∀ (i j : Nat) (a b : Checkpoint), i ≤ j → cs[i]? = some a → cs[j]? = some b →
        a.size ≤ b.size ∧ (a.size = b.size → a.rootHash = b.rootHash) ∧
        ∀ leaves : List Bytes,
          P.ConsistencySound (hashChildren C) (emptyRoot C) leaves proofs →
          leaves.length = b.size → b.rootHash = rfc6962Root C leaves →
          a.rootHash = rfc6962Root C (leaves.take a.size) := by
  simp only [Verifier.anchorChain, bind_ok, ensure_ok, exists_const] at h
  obtain ⟨-, hlen, h⟩ := h
  have hproofs : ∀ r ∈ records.zip proofs, r.2 ∈ proofs := fun r hr => (of_mem_zip hr).2
  obtain ⟨cs, hcs, hall, hchain⟩ := Verifier.checkAnchors_ok hproofs h
  rw [map_fst_zip (Nat.le_of_eq hlen.symm)] at hcs
  refine ⟨cs, hcs, fun c hc => ?_, fun i j a b hij hi hj => ?_⟩
  · have hok := hall c hc
    simp only [Verifier.checkpoint, bind_ok, ensure_ok, exists_const] at hok
    obtain ⟨horigin, _, hver, -⟩ := hok
    exact ⟨horigin, Checkpoint.verify_ok.mp hver⟩
  · -- the comparisons of neighbours add up to one of any two
    have hpair : cs.Pairwise fun a b => 0 < a.size → Earlier C P proofs a b := by
      have htrans : IsTrans Checkpoint fun a b => 0 < a.size → Earlier C P proofs a b :=
        ⟨fun a b c hab hbc ha => (hab ha).trans (hbc (Nat.lt_of_lt_of_le ha (hab ha).size))⟩
      exact isChain_iff_pairwise.mp (IsChain.imp (fun a b hstep ha => hstep.earlier ha)
        hchain)
    have hapos : 0 < a.size := hpos a (hcs ▸ mem_map_of_mem (mem_of_getElem? hi))
    have hearlier : Earlier C P proofs a b := by
      obtain ⟨hli, rfl⟩ := List.getElem?_eq_some_iff.mp hi
      obtain ⟨hlj, rfl⟩ := List.getElem?_eq_some_iff.mp hj
      rcases Nat.eq_or_lt_of_le hij with rfl | hlt
      · exact .refl _
      · exact pairwise_iff_getElem.mp hpair i j hli hlj hlt hapos
    refine ⟨hearlier.size, hearlier.same, fun leaves hsound hl hroot => ?_⟩
    refine hearlier.prefix_root leaves hsound (Nat.le_of_eq hl.symm) ?_
    rwa [← hl, take_length]

def leftLeaf : Bytes := replicate 32 7

def rightLeaf : Bytes := replicate 32 8

def anchoredCrypto : Crypto :=
  { Crypto.sample with
    sha256 := fun m => Crypto.fit 32 (if m = 1 :: (leftLeaf ++ rightLeaf) then [1] else 0 :: m)
    sha256_length := fun _ => Crypto.fit_length 32 _ }

def anchoredCheckpoint (n : Nat) : Checkpoint := .signedWith operatorKey {
  origin := lit "log"
  size := n
  rootHash := rfc6962Root anchoredCrypto ([leftLeaf, rightLeaf].take n)
  headHash := []
  timeNanos := 0
  epochIdx := 0
  keyID := keyIDOf anchoredCrypto operatorKey }

def AnchorRecord.of (c : Checkpoint) : Option AnchorRecord := some ⟨some c⟩

def anchoredProofs : List (List Bytes) := [[], [rightLeaf], []]

def anchoredTree : ProofImpl Bytes :=
  pathTree (hashChildren anchoredCrypto) (emptyRoot anchoredCrypto)

lemma hashChildren_left {h : Bytes} (hnode : hashChildren anchoredCrypto h rightLeaf =
    hashChildren anchoredCrypto leftLeaf rightLeaf) : h = leftLeaf := by
  by_contra hne
  have hmsg : 1 :: (h ++ rightLeaf) ≠ 1 :: (leftLeaf ++ rightLeaf) := by simpa using hne
  simp only [hashChildren, anchoredCrypto, if_neg hmsg, if_pos] at hnode
  have hhead := congrArg head? hnode
  simp [Crypto.fit] at hhead

lemma anchoredTree_sound : anchoredTree.ConsistencySound (hashChildren anchoredCrypto)
    (emptyRoot anchoredCrypto) [leftLeaf, rightLeaf] anchoredProofs := by
  intro proof hproof m n root hm hmn hn hver
  by_cases hsame : m = n
  · subst hsame
    simp only [anchoredTree, pathTree, if_pos] at hver
    split at hver
    · rename_i hok
      exact hok.2
    · cases hver
  · obtain ⟨rfl, rfl⟩ : m = 1 ∧ n = 2 := by
      simp only [length_cons, length_nil] at hn
      omega
    simp only [anchoredProofs, mem_cons, not_mem_nil, or_false] at hproof
    rcases hproof with rfl | rfl | rfl
    · cases hver
    · have hk : splitPoint 2 = 1 := by decide
      have hnode : hashChildren anchoredCrypto root rightLeaf =
          rfc6962Root anchoredCrypto [leftLeaf, rightLeaf] := by
        simpa [anchoredTree, pathTree, pathRoots, rfc6962Root, hk] using hver
      exact hashChildren_left hnode
    · cases hver

theorem anchored_history_sample :
    Verifier.anchorChain anchoredCrypto anchoredTree
      { origin := lit "log", rootPublicKey := operatorKey, chain := some soloChain }
      ([1, 2, 2].map (AnchorRecord.of <| anchoredCheckpoint ·)) anchoredProofs = .ok () ∧
    (anchoredCheckpoint 1).rootHash = rfc6962Root anchoredCrypto [leftLeaf] := by
  have hok : Verifier.anchorChain anchoredCrypto anchoredTree
      { origin := lit "log", rootPublicKey := operatorKey, chain := some soloChain }
      ([1, 2, 2].map (AnchorRecord.of <| anchoredCheckpoint ·)) anchoredProofs = .ok () := by
    decide +kernel
  refine ⟨hok, ?_⟩
  obtain ⟨cs, hcs, -, hall⟩ := anchored_history hok (by
    intro c hc
    simp only [AnchorRecord.of, map_cons, map_nil, mem_cons, not_mem_nil,
      Option.some.injEq, AnchorRecord.mk.injEq, or_false] at hc
    rcases hc with rfl | rfl | rfl <;> decide)
  have hcs' : cs = [1, 2, 2].map anchoredCheckpoint := by
    have hinj : Function.Injective AnchorRecord.of := fun a b h => by cases h; rfl
    refine (map_injective_iff.mpr hinj ?_).symm
    rw [List.map_map]
    exact hcs
  subst hcs'
  have hpair := hall 0 2 (anchoredCheckpoint 1) (anchoredCheckpoint 2) (by decide) rfl rfl
  exact hpair.2.2 [leftLeaf, rightLeaf] anchoredTree_sound rfl rfl

end Stele
