import Stele.Keys.KeyFile
import Stele.Lib.JsonEncoder

/-!
# Signed journals (`pkg/adminlog`, `pkg/readlog`)

The admin log and the read log are two journals of one design: a file of JSON documents, each an
event that is signed by the journal's keys and linked to the event before it. `Format` is what they
differ in.
-/

namespace Stele.Journals

open Lib List

/-! ## Events -/

structure Event (B : Type) where
  index : Nat
  timeNanos : Int
  prevHash : Bytes
  body : B
  eventHash : Bytes := []
  pubKey : Bytes
  signature : Bytes := []
  quantumPubKey : Bytes := []
  quantumSignature : Bytes := []
  deriving DecidableEq

/-- A document of the file. The field `details` is kept apart as its text, which a `json.RawMessage`
takes over as it is. -/
structure Line where
  obj : Json
  details : Option Bytes := none

structure Format (B : Type) where
  noun : String
  pkg : String
  gap : String
  canonical : B → Bytes
  marshal : Event B → Res Line
  unmarshal : Line → Res (Event B)

variable (C : Crypto) {B : Type} (F : Format B)

namespace Event

def canonical (e : Event B) : Bytes :=
  be 8 e.index ++ (be 8 (u64 e.timeNanos) ++ (put e.prevHash ++
    (F.canonical e.body ++ put e.quantumPubKey)))

def verify (e : Event B) : Res Unit := do
  let canon := e.canonical F
  ensure (hex e.eventHash = hex (C.sha256 canon))
    (errorf (F.noun ++ " event %d: EventHash mismatch") [.nat e.index])
  ensure (e.pubKey.length = edPublicKeySize)
    (errorf (F.noun ++ " event %d: bad pubkey length %d") [.nat e.index, .nat e.pubKey.length])
  ensure (e.signature.length = edSignatureSize)
    (errorf (F.noun ++ " event %d: bad sig length %d") [.nat e.index, .nat e.signature.length])
  C.checkEd e.pubKey canon e.signature
    (errorf (F.noun ++ " event %d: classical signature invalid") [.nat e.index])
  checkIf (e.quantumPubKey ≠ [] ∨ e.quantumSignature ≠ []) do
    ensure (e.quantumPubKey.length = quantumPublicKeySize)
      (errorf (F.noun ++ " event %d: bad quantum pubkey length %d")
        [.nat e.index, .nat e.quantumPubKey.length])
    ensure (e.quantumSignature.length = quantumSignatureSize)
      (errorf (F.noun ++ " event %d: bad quantum sig length %d")
        [.nat e.index, .nat e.quantumSignature.length])
    let qp ← wrapErr (F.noun ++ " event %d: decode quantum pubkey: %w") [.nat e.index]
      (Crypto.decodeQuantum e.quantumPubKey)
    ensure (C.dilVerify qp canon e.quantumSignature = true)
      (errorf (F.noun ++ " event %d: quantum signature invalid") [.nat e.index])

structure Valid (e : Event B) : Prop where
  hash : e.eventHash = C.sha256 (e.canonical F)
  signature : C.EdValid e.pubKey (e.canonical F) e.signature
  quantum : e.quantumPubKey ≠ [] ∨ e.quantumSignature ≠ [] →
    C.DilValid e.quantumPubKey (e.canonical F) e.quantumSignature ∧
      e.quantumSignature.length = quantumSignatureSize

variable {C F}

lemma verify_ok {e : Event B} {u : Unit} : e.verify C F = .ok u ↔ e.Valid C F := by
  simp only [verify, bind_ok, ensure_ok, exists_const, Crypto.checkEd_ok, checkIf_ok, wrapErr_ok,
    Crypto.decodeQuantum_ok]
  constructor
  · rintro ⟨hhash, -, -, hsig, hquantum⟩
    refine ⟨hex_inj hhash, hsig, fun hq => ?_⟩
    obtain ⟨hlen, hsiglen, key, ⟨-, rfl⟩, hver⟩ := hquantum hq
    exact ⟨⟨hlen, hver⟩, hsiglen⟩
  · rintro ⟨hhash, hsig, hquantum⟩
    refine ⟨by rw [hhash], hsig.1, C.edVerify_length hsig.2, hsig, fun hq => ?_⟩
    obtain ⟨⟨hlen, hver⟩, hsiglen⟩ := hquantum hq
    exact ⟨hlen, hsiglen, e.quantumPubKey, ⟨hlen, rfl⟩, hver⟩

end Event

/-! ## The file -/

/-- What `json.Decoder` meets at the top level of a file. -/
inductive Piece
  | doc (l : Line)
  /-- A text that is no document, whatever follows it: an incomplete object, for instance. -/
  | broken
  | close

def Piece.isClose : Piece → Bool
  | .close => true
  | _ => false

def allZeros (b : Bytes) : Bool := b.all (· = 0)

def checkLink (prev : Option (Event B)) (ev : Event B) : Res Unit :=
  match prev with
  | none => do
    ensure (allZeros ev.prevHash = true)
      (errorf (F.pkg ++ " replay: first event PrevHash must be zero") [])
    ensure (ev.index = 0)
      (errorf (F.pkg ++ " replay: first event index must be 0, got %d") [.nat ev.index])
  | some p => do
    ensure (ev.index = p.index + 1) (errorf F.gap [.nat p.index, .nat ev.index])
    ensure (hex ev.prevHash = hex p.eventHash)
      (errorf (F.pkg ++ " replay: event %d PrevHash does not chain") [.nat ev.index])

def Piece.decode : Piece → Res (Event B)
  | .doc l => F.unmarshal l
  | .broken | .close => .error (errorf "invalid character or unexpected EOF" [])

def replay (prev : Option (Event B)) : List Piece → Res (Option (Event B))
  | [] => .ok prev
  | p :: rest =>
    if p.isClose then .ok prev
    else do
      let ev ← wrapErr (F.pkg ++ " replay: %w") [] (p.decode F)
      wrapErr (F.pkg ++ " replay: %w") [] (ev.verify C F)
      checkLink F prev ev
      replay (some ev) rest

def reached (file : List Piece) : List Piece := file.takeWhile fun p => !p.isClose

def events (file : List Piece) : List (Event B) := file.filterMap fun p => (p.decode F).toOption

def Event.Follows (prev : Option (Event B)) (ev : Event B) : Prop :=
  match prev with
  | none => allZeros ev.prevHash = true ∧ ev.index = 0
  | some p => ev.index = p.index + 1 ∧ ev.prevHash = p.eventHash

def Chained : Option (Event B) → List (Event B) → Prop
  | _, [] => True
  | prev, ev :: evs => ev.Follows prev ∧ Chained (some ev) evs

variable {C F} {prev : Option (Event B)}

lemma checkLink_ok {ev : Event B} {u : Unit} : checkLink F prev ev = .ok u ↔ ev.Follows prev := by
  cases prev with
  | none => simp [checkLink, Event.Follows]
  | some =>
    simp only [checkLink, Event.Follows, bind_ok, ensure_ok, exists_const]
    constructor
    · rintro ⟨hindex, hlink⟩
      exact ⟨hindex, hex_inj hlink⟩
    · rintro ⟨hindex, hlink⟩
      exact ⟨hindex, by rw [hlink]⟩

variable {evs : List (Event B)}

lemma chained_append {evs' : List (Event B)} :
    Chained prev (evs ++ evs') ↔ Chained prev evs ∧ Chained (evs.getLast?.or prev) evs' := by
  induction evs generalizing prev with
  | nil => simp [Chained]
  | cons ev evs ih =>
    have hlast : ((ev :: evs).getLast?).or prev = evs.getLast?.or (some ev) := by
      cases evs with
      | nil => rfl
      | cons ev' evs =>
        rw [getLast?_cons_cons]
        cases h : (ev' :: evs).getLast? with
        | none => simp at h
        | some => rfl
    rw [cons_append, Chained, Chained, ih, hlast, and_assoc]

lemma Chained.index_eq (h : Chained none evs) {i : Nat} {e : Event B} (he : evs[i]? = some e) :
    e.index = i := by
  -- along the chain the first index is known, and each next one is one more
  have hfrom : ∀ (evs : List (Event B)) (p : Event B), Chained (some p) evs →
      ∀ (i : Nat) (e : Event B), evs[i]? = some e → e.index = p.index + 1 + i := by
    intro evs
    induction evs with
    | nil =>
      intro p _ i e he
      cases he
    | cons ev evs ih =>
      intro p h i e he
      have hev : ev.index = p.index + 1 := h.1.1
      cases i with
      | zero =>
        obtain rfl := Option.some.inj he
        exact hev
      | succ i =>
        have := ih ev h.2 i e he
        omega
  cases evs with
  | nil => cases he
  | cons ev evs =>
    have hev : ev.index = 0 := h.1.2
    cases i with
    | zero =>
      obtain rfl := Option.some.inj he
      exact hev
    | succ i =>
      have := hfrom evs ev h.2 i e he
      omega

lemma Chained.index_lt (h : Chained none evs) {e : Event B} (he : e ∈ evs) :
    e.index < evs.length := by
  obtain ⟨i, hi, heq⟩ := List.mem_iff_getElem.mp he
  rw [h.index_eq (List.getElem?_eq_some_iff.mpr ⟨hi, heq⟩)]
  exact hi

lemma Chained.sorted (h : Chained none evs) : evs.Pairwise fun a b => a.index < b.index := by
  rw [pairwise_iff_getElem]
  intro i k hi hk hik
  rw [h.index_eq (getElem?_eq_getElem hi), h.index_eq (getElem?_eq_getElem hk)]
  exact hik

lemma getLast?_cons_or (ev : Event B) (evs : List (Event B)) (prev : Option (Event B)) :
    (ev :: evs).getLast?.or prev = evs.getLast?.or (some ev) := by
  cases hlast : evs.getLast? with
  | none => simp [getLast?_eq_none_iff.mp hlast]
  | some => simp [getLast?_cons, hlast]

lemma replay_end {last : Option (Event B)} :
    prev = last ↔ ∃ evs : List (Event B),
      ([] : List (Res (Event B))) = evs.map .ok ∧ (∀ e ∈ evs, e.Valid C F) ∧ Chained prev evs ∧
      last = evs.getLast?.or prev := by
  constructor
  · rintro rfl
    exact ⟨[], rfl, by simp, trivial, by simp⟩
  · rintro ⟨evs, hevs, -, -, hlast⟩
    obtain rfl := map_eq_nil_iff.mp hevs.symm
    simpa using hlast.symm

/-- **What a file that passes holds**: every piece up to the first closing bracket is an event that
passes `Verify` and follows the one before it. -/
theorem replay_ok {file : List Piece} {last : Option (Event B)} :
    replay C F prev file = .ok last ↔ ∃ evs : List (Event B),
      (reached file).map (Piece.decode F) = evs.map .ok ∧ (∀ e ∈ evs, e.Valid C F) ∧
      Chained prev evs ∧ last = evs.getLast?.or prev := by
  induction file generalizing prev with
  | nil =>
    simp only [replay, reached, takeWhile_nil, map_nil, Except.ok.injEq]
    exact replay_end
  | cons p rest ih =>
    rw [replay]
    by_cases hp : p.isClose = true
    · simp only [hp, ↓reduceIte, reached, takeWhile_cons, Bool.not_true, Bool.false_eq_true,
        map_nil, Except.ok.injEq]
      exact replay_end
    · have hreached : reached (p :: rest) = p :: reached rest := by simp [reached, hp]
      rw [if_neg hp, hreached]
      simp only [bind_ok, wrapErr_ok, Event.verify_ok, checkLink_ok, exists_const, ih]
      constructor
      · rintro ⟨ev, hdecode, hvalid, hfollows, evs, hevs, hall, hchain, rfl⟩
        exact ⟨ev :: evs, by rw [map_cons, map_cons, hdecode, hevs],
          forall_mem_cons.mpr ⟨hvalid, hall⟩, ⟨hfollows, hchain⟩,
          (getLast?_cons_or ev evs prev).symm⟩
      · rintro ⟨evs, hevs, hall, hchain, rfl⟩
        cases evs with
        | nil => simp at hevs
        | cons ev evs =>
          rw [map_cons, map_cons, List.cons.injEq] at hevs
          exact ⟨ev, hevs.1, hall ev (by simp), hchain.1, evs, hevs.2,
            fun e he => hall e (by simp [he]), hchain.2, getLast?_cons_or ev evs prev⟩

end Stele.Journals
