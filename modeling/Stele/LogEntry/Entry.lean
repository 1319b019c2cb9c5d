import Stele.Attest.Envelope
import Stele.Merkle.Tree

/-!
# Log entries (`pkg/logentry`)

An `Entry` wraps an envelope with the operator's index, time and link to the previous entry.
-/

namespace Stele

open Lib List Json

structure Entry where
  index : Nat
  timeNanos : Int
  prevHash : Bytes
  envelope : Option Envelope
  honeypot : Bool
  entryHash : Bytes
  leafHash : Bytes
  deriving DecidableEq, Repr

def zeroHash : Bytes := List.replicate 32 0

namespace Entry

variable (C : Crypto)

def canonical (e : Entry) : Bytes :=
  let prev := if e.prevHash = [] then zeroHash else e.prevHash
  let envHash := match e.envelope with
    | some env => env.hash C
    | none => zeroHash
  be 8 e.index ++ be 8 (u64 e.timeNanos) ++ put prev ++ put envHash ++ [if e.honeypot then 1 else 0]

def sealEntry (e : Entry) : Entry :=
  { e with entryHash := C.sha256 (e.canonical C), leafHash := Stele.hashLeaf C (e.canonical C) }

def verify (e : Entry) : Res Unit := do
  match e.envelope with
  | none => throw (errorf "entry %d: missing envelope" [.nat e.index])
  | some env =>
    wrapErr "entry %d: envelope: %w" [.nat e.index] (env.verify C)
    let canon := e.canonical C
    ensure (e.entryHash = C.sha256 canon)
      (errorf "entry %d: EntryHash mismatch (have %x, want %x)"
        [.nat e.index, .bytes e.entryHash, .bytes (C.sha256 canon)])
    ensure (e.leafHash = Stele.hashLeaf C canon)
      (errorf "entry %d: LeafHash mismatch (have %x, want %x)"
        [.nat e.index, .bytes e.leafHash, .bytes (Stele.hashLeaf C canon)])

def verifyChain (e : Entry) : Option Entry → Res Unit
  | none => do
    ensure (e.prevHash = zeroHash) (errorf "entry 0: PrevHash must be zero" [])
    ensure (e.index = 0) (errorf "first entry must have index 0, got %d" [.nat e.index])
  | some prev => do
    ensure (e.index = prev.index + 1)
      (errorf "entry %d: expected index %d" [.nat e.index, .nat (prev.index + 1)])
    ensure (e.prevHash = prev.entryHash)
      (errorf "entry %d: PrevHash %x does not chain to entry %d (%x)"
        [.nat e.index, .bytes e.prevHash, .nat prev.index, .bytes prev.entryHash])

def new (now : Int) (idx : Nat) (prevEntry : Option Entry) (env : Envelope) (honeypot : Bool) :
    Entry :=
  let prev := match prevEntry with
    | some p => p.entryHash
    | none => zeroHash
  sealEntry C {
    index := idx
    timeNanos := now
    prevHash := prev
    envelope := some env
    honeypot := honeypot
    entryHash := []
    leafHash := [] }

/-! ## What verification checks -/

structure Sound (e : Entry) : Prop where
  envelope : ∃ env, e.envelope = some env ∧ env.Valid C
  entryHash : e.entryHash = C.sha256 (e.canonical C)
  leafHash : e.leafHash = Stele.hashLeaf C (e.canonical C)

variable {C} {e : Entry}

lemma verify_ok {u : Unit} : e.verify C = .ok u ↔ e.Sound C := by
  unfold verify
  cases henv : e.envelope with
  | none =>
    simp only [throw_ok, false_iff]
    rintro ⟨⟨env, h, -⟩, -, -⟩
    rw [henv] at h
    cases h
  | some env =>
    simp only [bind_ok, ensure_ok, wrapErr_ok, exists_const, Envelope.verify_ok]
    constructor
    · rintro ⟨hv, he, hl⟩
      exact ⟨⟨env, henv, hv⟩, he, hl⟩
    · rintro ⟨⟨env', h, hv⟩, he, hl⟩
      rw [henv] at h
      cases h
      exact ⟨hv, he, hl⟩

lemma noPanic_verify (e : Entry) : NoPanic (e.verify C) := by
  unfold verify
  cases e.envelope with
  | none => exact noPanic_errorf _ _
  | some env => simp [Envelope.noPanic_verify env]

lemma noPanic_verifyChain (e : Entry) (prev : Option Entry) : NoPanic (e.verifyChain prev) := by
  cases prev with
  | none => simp [verifyChain]
  | some => simp [verifyChain]

lemma Sound.entryHash_length (h : e.Sound C) : e.entryHash.length = 32 := by
  rw [h.entryHash]; exact C.sha256_length _

lemma Sound.leafHash_length (h : e.Sound C) : e.leafHash.length = 32 := by
  rw [h.leafHash]; exact hashLeaf_length C _

def Follows (e : Entry) : Option Entry → Prop
  | none => e.index = 0 ∧ e.prevHash = zeroHash
  | some prev => e.index = prev.index + 1 ∧ e.prevHash = prev.entryHash

variable {prev : Option Entry}

lemma verifyChain_ok {u : Unit} : e.verifyChain prev = .ok u ↔ e.Follows prev := by
  cases prev with
  | none => simp [verifyChain, Follows, and_comm]
  | some => simp [verifyChain, Follows]

lemma new_sound {now : Int} {idx : Nat} {env : Envelope} {honeypot : Bool} (h : env.Valid C) :
    (new C now idx prev env honeypot).Sound C :=
  ⟨⟨env, rfl, h⟩, rfl, rfl⟩

/-! ## Chains of entries -/

def Chained : Option Entry → List Entry → Prop
  | _, [] => True
  | prev, e :: es => e.Follows prev ∧ Chained (some e) es

def lastOr (prev : Option Entry) (es : List Entry) : Option Entry := es.getLast?.or prev

lemma lastOr_cons (prev : Option Entry) (e : Entry) (es : List Entry) :
    lastOr prev (e :: es) = lastOr (some e) es := by
  unfold lastOr
  rw [getLast?_cons]
  cases es.getLast? <;> rfl

variable {es : List Entry}

lemma chained_append {fs : List Entry} :
    Chained prev (es ++ fs) ↔ Chained prev es ∧ Chained (lastOr prev es) fs := by
  induction es generalizing prev with
  | nil => simp [Chained, lastOr]
  | cons e es ih => rw [cons_append, Chained, Chained, ih, lastOr_cons, and_assoc]

lemma chained_concat :
    Chained prev (es ++ [e]) ↔ Chained prev es ∧ e.Follows (lastOr prev es) := by
  rw [chained_append]
  simp [Chained]

def nextIndex : Option Entry → Nat
  | some p => p.index + 1
  | none => 0

lemma Follows.index_eq (h : e.Follows prev) : e.index = nextIndex prev := by
  cases prev with
  | none => exact h.1
  | some => exact h.1

lemma Chained.index_eq (h : Chained prev es) {i : Nat} (hi : es[i]? = some e) :
    e.index = nextIndex prev + i := by
  induction es generalizing prev i with
  | nil => simp at hi
  | cons e' es ih =>
    obtain ⟨hf, ht⟩ := h
    have he' := hf.index_eq
    cases i with
    | zero =>
      simp only [getElem?_cons_zero, Option.some.injEq] at hi
      rw [← hi, he', Nat.add_zero]
    | succ =>
      rw [getElem?_cons_succ] at hi
      have := ih ht hi
      rw [this, nextIndex, he']
      omega

lemma Follows.prevHash_length (h : e.Follows prev) (hprev : ∀ p, prev = some p → p.Sound C) :
    e.prevHash.length = 32 := by
  cases prev with
  | none => rw [h.2, zeroHash, length_replicate]
  | some p => rw [h.2, (hprev p rfl).entryHash_length]

lemma Chained.prevHash_length (h : Chained prev es) (hprev : ∀ p, prev = some p → p.Sound C)
    (hsound : ∀ e ∈ es, e.Sound C) (he : e ∈ es) : e.prevHash.length = 32 := by
  induction es generalizing prev with
  | nil => cases he
  | cons f es ih =>
    obtain ⟨hf, ht⟩ := h
    rcases mem_cons.mp he with rfl | he
    · exact hf.prevHash_length hprev
    · refine ih ht ?_ (fun g hg => hsound g (mem_cons_of_mem _ hg)) he
      rintro p ⟨⟩
      exact hsound f mem_cons_self

/-! ## What the hashes fix -/

structure Fits (e : Entry) : Prop where
  index : e.index < 2 ^ 64
  timeNanos : IsInt64 e.timeNanos
  envelope : ∀ env, e.envelope = some env → env.Fits

structure Agree (e f : Entry) : Prop where
  index : e.index = f.index
  timeNanos : e.timeNanos = f.timeNanos
  prevHash : e.prevHash = f.prevHash
  honeypot : e.honeypot = f.honeypot
  envelope : ∃ env env', e.envelope = some env ∧ f.envelope = some env' ∧ env.Agree env'

variable (C) in
def hashed (e : Entry) : List Bytes :=
  e.canonical C :: (0 :: e.canonical C) :: e.envelope.toList.map Envelope.canonical

section
variable {e f : Entry} (he : e.Sound C) (hf : f.Sound C) (hefit : e.Fits) (hffit : f.Fits)
  (heprev : e.prevHash.length = 32) (hfprev : f.prevHash.length = 32)
  (hcf : C.CollisionFree (e.hashed C ++ f.hashed C))
include he hf hefit hffit heprev hfprev hcf

lemma Sound.agree_of_canonical (h : e.canonical C = f.canonical C) : e.Agree f := by
  obtain ⟨env, henv, -⟩ := he.envelope
  obtain ⟨env', henv', -⟩ := hf.envelope
  have hene : e.prevHash ≠ [] := ne_nil_of_length_pos (by omega)
  have hfne : f.prevHash ≠ [] := ne_nil_of_length_pos (by omega)
  simp only [canonical, henv, henv', if_neg hene, if_neg hfne, append_assoc] at h
  obtain ⟨hidx, h⟩ := be_append_inj hefit.index hffit.index h
  obtain ⟨htime, h⟩ := be_append_inj (u64_lt _) (u64_lt _) h
  obtain ⟨hprev, h⟩ := put_append_inj (by omega) (by omega) h
  have hlen (x : Envelope) : (x.hash C).length < 2 ^ 32 := by
    rw [Envelope.hash, C.sha256_length]
    omega
  obtain ⟨hhash, hpot⟩ := put_append_inj (hlen env) (hlen env') h
  have hcanon : env.canonical = env'.canonical :=
    hcf _ (by simp [hashed, henv]) _ (by simp [hashed, henv']) hhash
  refine ⟨hidx, u64_inj hefit.timeNanos hffit.timeNanos htime, hprev, ?_, env, env', henv, henv',
    Envelope.agree_of_canonical (hefit.envelope _ henv) (hffit.envelope _ henv') hcanon⟩
  cases hep : e.honeypot <;> cases hfp : f.honeypot <;> simp [hep, hfp] at hpot ⊢

lemma Sound.agree_of_entryHash (h : e.entryHash = f.entryHash) : e.Agree f := by
  rw [he.entryHash, hf.entryHash] at h
  refine he.agree_of_canonical hf hefit hffit heprev hfprev hcf ?_
  exact hcf _ (by simp [hashed]) _ (by simp [hashed]) h

lemma Sound.agree_of_leafHash (h : e.leafHash = f.leafHash) : e.Agree f := by
  rw [he.leafHash, hf.leafHash] at h
  refine he.agree_of_canonical hf hefit hffit heprev hfprev hcf ?_
  have hmsg := hcf _ (by simp [hashed]) _ (by simp [hashed]) h
  exact (List.cons.inj hmsg).2

end

/-! ## JSON -/

def marshal (e : Entry) : Json := .obj <|
  Json.fld "index" (.num e.index) ++
  Json.fld "time_ns" (.num e.timeNanos) ++
  Json.fld "prev_hash" (.ofBytes e.prevHash) ++
  Json.fld "envelope" (match e.envelope with | some env => env.toJson | none => .null) ++
  Json.omitEmpty "honeypot" (!e.honeypot) (.bool e.honeypot) ++
  Json.fld "entry_hash" (.ofBytes e.entryHash) ++
  Json.fld "leaf_hash" (.ofBytes e.leafHash)

def getEnvelope : Json → Res (Option Envelope)
  | .null => .ok none
  | j => do return some (← Envelope.ofJson j)

def unmarshal (j : Json) : Res Entry := do
  let entryHash ← j.field "entry_hash"
  let leafHash ← j.field "leaf_hash"
  let e : Entry := {
    index := ← j.field "index" >>= Json.getNat
    timeNanos := ← j.field "time_ns" >>= Json.getInt
    prevHash := ← j.field "prev_hash" >>= Json.getBytes
    envelope := ← j.field "envelope" >>= getEnvelope
    honeypot := ← j.field "honeypot" >>= Json.getBool
    entryHash := ← Json.getBytes entryHash
    leafHash := ← Json.getBytes leafHash }
  ensure (entryHash.isNull = false ∧ leafHash.isNull = false)
    (errorf "entry missing EntryHash or LeafHash" [])
  return e

def IsUtf8 (e : Entry) : Prop := ∀ env, e.envelope = some env → env.IsUtf8

lemma getEnvelope_toJson {env : Envelope} (h : env.IsUtf8) :
    getEnvelope env.toJson = .ok (some env) := by
  show (do return some (← Envelope.ofJson env.toJson)) = _
  rw [Envelope.ofJson_toJson h]
  rfl

lemma unmarshal_marshal (h : e.IsUtf8) : unmarshal e.marshal = .ok e := by
  have henv : getEnvelope (match e.envelope with | some env => env.toJson | none => .null) =
      .ok e.envelope := by
    cases he : e.envelope with
    | none => rfl
    | some env => exact getEnvelope_toJson (h env he)
  simp only [unmarshal, marshal, Json.field, lastField_append, lastField_fld,
    lastField_omitEmpty, String.reduceEq, ↓reduceIte, ok_bind, getNat_num,
    getInt_num, getBytes_ofBytes, getBool_omitted, henv]
  rfl

lemma unmarshal_marshal_coerce (e : Entry) :
    ∃ env, unmarshal e.marshal = .ok { e with envelope := env } := by
  obtain ⟨env', henv⟩ : ∃ env', getEnvelope (match e.envelope with
      | some env => env.toJson | none => .null) = .ok env' := by
    cases e.envelope with
    | none => exact ⟨none, rfl⟩
    | some env =>
      refine ⟨some { env with
        producerID := coerce env.producerID, source := coerce env.source,
        type := coerce env.type }, ?_⟩
      show (do return some (← Envelope.ofJson env.toJson)) = _
      rw [Envelope.ofJson_toJson_coerce]
      rfl
  refine ⟨env', ?_⟩
  simp only [unmarshal, marshal, Json.field, lastField_append, lastField_fld,
    lastField_omitEmpty, String.reduceEq, ↓reduceIte, ok_bind, getNat_num,
    getInt_num, getBytes_ofBytes, getBool_omitted, henv]
  rfl

end Entry

end Stele
