import Stele.Journals.Event
import Stele.Lib.Runs

/-!
# Journals and their runs
-/

namespace Stele.Journals

open Lib List Keys

/-! ## The keys -/

inductive Create
  | done
  | never
  | cut (n : Nat)
  deriving DecidableEq

/-- A call of `Open` or `OpenHybrid`: the keys that it draws, and what becomes of the files that it
makes. -/
structure Opening where
  hybrid : Bool
  freshKey : EdKey
  freshQuantum : DilKey
  key : Create := .done
  pub : Create := .done
  quantum : Create := .done
  quantumPub : Create := .done

def writeError : Fault := errorf "write error" []

/-- A new key, its file and the file of its public half, which is never read. -/
def createKey {size : Nat} (fresh : { b : Bytes // b.length = size }) (key pub : Create) :
    Option Bytes × Res { b : Bytes // b.length = size } :=
  match key with
  | .never => (none, .error writeError)
  | .cut n => (some ((b64 fresh ++ [newline]).take n), .error writeError)
  | .done => (some (b64 fresh ++ [newline]), if pub = .done then .ok fresh else .error writeError)

def decodeKey (size : Nat) (bad : Nat → Fault) (buf : Bytes) :
    Res { b : Bytes // b.length = size } :=
  match decodeString (trimSpace buf) with
  | .error e => .error e
  | .ok raw => if h : raw.length = size then .ok ⟨raw, h⟩ else .error (bad raw.length)

def loadOrCreateKey (pkg : String) (o : Opening) : Option Bytes → Option Bytes × Res EdKey
  | some buf => (some buf, decodeKey edPrivateKeySize
      (fun n => errorf (pkg ++ ": bad key length %d") [.nat n]) buf)
  | none => createKey o.freshKey o.key o.pub

def loadOrCreateQuantum (pkg : String) (o : Opening) :
    Option Bytes → Option Bytes × Res (Option DilKey)
  | some buf => (some buf, (decodeKey quantumPrivateKeySize
      (fun _ => (errorf "packed private key must be of mode3.PrivateKeySize bytes" []).wrap
        (pkg ++ " quantum key: %w") []) buf).map some)
  | none =>
    if o.hybrid then
      let made := createKey o.freshQuantum o.quantum o.quantumPub
      (made.1, made.2.map some)
    else (none, .ok none)

/-! ## `Open` -/

structure Journal where
  priv : EdKey
  qPriv : Option DilKey
  size : Nat := 0
  prev : Bytes := List.replicate 32 0
  deriving DecidableEq

structure Dir where
  key : Option Bytes := none
  quantum : Option Bytes := none
  file : List Piece := []

variable (C : Crypto) {B : Type} (F : Format B)

def headHash (last : Option (Event B)) : Bytes :=
  match last with
  | none => List.replicate 32 0
  | some ev => ev.eventHash

def sizeAfter (last : Option (Event B)) : Nat :=
  match last with
  | none => 0
  | some ev => ev.index + 1

def openJournal (o : Opening) (d : Dir) : Dir × Res Journal :=
  let key := loadOrCreateKey F.pkg o d.key
  let d := { d with key := key.1 }
  match key.2 with
  | .error e => (d, .error e)
  | .ok priv =>
    let quantum := loadOrCreateQuantum F.pkg o d.quantum
    let d := { d with quantum := quantum.1 }
    match quantum.2 with
    | .error e => (d, .error e)
    | .ok qPriv => (d, do
      let last ← replay C F none d.file
      return { priv, qPriv, size := sizeAfter last, prev := headHash last })

variable {C F}

@[simp] lemma openJournal_file (o : Opening) (d : Dir) :
    (openJournal C F o d).1.file = d.file := by
  simp only [openJournal]
  split
  · rfl
  · split <;> rfl

variable {o : Opening} {d : Dir} {j : Journal}

/-- **What `Open` found**: the file passes, and the journal goes on from its last event. -/
theorem open_ok (h : (openJournal C F o d).2 = .ok j) :
    ∃ last, replay C F none d.file = .ok last ∧ j.size = sizeAfter last ∧
      j.prev = headHash last := by
  simp only [openJournal] at h
  split at h
  · cases h
  · split at h
    · cases h
    · simp only [bind_ok, pure_ok] at h
      obtain ⟨last, hreplay, rfl⟩ := h
      exact ⟨last, hreplay, rfl, rfl⟩

structure Dir.Intact (d : Dir) : Prop where
  key : ∀ buf, d.key = some buf → ∃ k : EdKey, decodeString (trimSpace buf) = .ok k.val
  quantum : ∀ buf, d.quantum = some buf → ∃ q : DilKey, decodeString (trimSpace buf) = .ok q.val

lemma decodeKey_ok {size : Nat} {bad : Nat → Fault} {buf : Bytes}
    {k : { b : Bytes // b.length = size }} :
    decodeKey size bad buf = .ok k ↔ decodeString (trimSpace buf) = .ok k.val := by
  unfold decodeKey
  split
  · rename_i e he
    simp [he]
  · rename_i raw hraw
    rw [hraw, Except.ok.injEq]
    by_cases h : raw.length = size
    · rw [dif_pos h, Except.ok.injEq, Subtype.ext_iff]
    · rw [dif_neg h]
      constructor
      · intro hk
        cases hk
      · intro hk
        exact absurd (hk ▸ k.property) h

lemma decodeString_file {b : Bytes} (hne : b ≠ []) :
    decodeString (trimSpace (b64 b ++ [newline])) = .ok b := by
  rw [trimSpace_line (fun c hc => (b64_word b c hc).1) (b64_ne_nil hne), decodeString_ok, unb64_b64]

structure Opening.Uncut (o : Opening) : Prop where
  key : ∀ n, o.key ≠ .cut n
  quantum : ∀ n, o.quantum ≠ .cut n

structure Opening.Clean (o : Opening) : Prop where
  key : o.key = .done
  pub : o.pub = .done
  quantum : o.quantum = .done
  quantumPub : o.quantumPub = .done

lemma Opening.Clean.uncut (h : o.Clean) : o.Uncut := ⟨by simp [h.key], by simp [h.quantum]⟩

section
variable {size : Nat} {fresh : { b : Bytes // b.length = size }} {key pub : Create}

lemma createKey_intact (hne : fresh.val ≠ []) (hkey : ∀ n, key ≠ .cut n) {buf : Bytes}
    (h : (createKey fresh key pub).1 = some buf) :
    decodeString (trimSpace buf) = .ok fresh.val := by
  cases key with
  | never => cases h
  | cut n => exact absurd rfl (hkey n)
  | done =>
    obtain rfl := Option.some.inj h
    exact decodeString_file hne

end

lemma openJournal_intact (h : d.Intact) (ho : o.Uncut) : (openJournal C F o d).1.Intact := by
  have hkey : ∀ buf, (loadOrCreateKey F.pkg o d.key).1 = some buf → ∃ k : EdKey,
      decodeString (trimSpace buf) = .ok k.val := by
    intro buf hbuf
    cases hd : d.key with
    | some b =>
      rw [hd] at hbuf
      obtain rfl := Option.some.inj hbuf
      exact h.key b hd
    | none =>
      rw [hd] at hbuf
      exact ⟨_, createKey_intact (edKey_ne_nil _) ho.key hbuf⟩
  have hquantum : ∀ buf, (loadOrCreateQuantum F.pkg o d.quantum).1 = some buf →
      ∃ q : DilKey, decodeString (trimSpace buf) = .ok q.val := by
    intro buf hbuf
    cases hd : d.quantum with
    | some b =>
      rw [hd] at hbuf
      obtain rfl := Option.some.inj hbuf
      exact h.quantum b hd
    | none =>
      rw [hd, loadOrCreateQuantum] at hbuf
      split at hbuf
      · exact ⟨_, createKey_intact (dilKey_ne_nil _) ho.quantum hbuf⟩
      · cases hbuf
  simp only [openJournal]
  split
  · exact ⟨hkey, h.quantum⟩
  · split
    · exact ⟨hkey, hquantum⟩
    · exact ⟨hkey, hquantum⟩

lemma open_succeeds (h : d.Intact) (ho : o.Clean) {last : Option (Event B)}
    (hreplay : replay C F none d.file = .ok last) : ∃ j, (openJournal C F o d).2 = .ok j := by
  obtain ⟨priv, hpriv⟩ : ∃ priv, (loadOrCreateKey F.pkg o d.key).2 = .ok priv := by
    cases hd : d.key with
    | some b =>
      obtain ⟨k, hk⟩ := h.key b hd
      refine ⟨k, ?_⟩
      simp only [loadOrCreateKey]
      exact decodeKey_ok.mpr hk
    | none => exact ⟨o.freshKey, by simp [loadOrCreateKey, createKey, ho.key, ho.pub]⟩
  obtain ⟨qPriv, hqPriv⟩ : ∃ qPriv, (loadOrCreateQuantum F.pkg o d.quantum).2 = .ok qPriv := by
    cases hd : d.quantum with
    | some b =>
      obtain ⟨q, hq⟩ := h.quantum b hd
      refine ⟨some q, ?_⟩
      simp only [loadOrCreateQuantum]
      rw [decodeKey_ok.mpr hq]
      rfl
    | none =>
      rw [loadOrCreateQuantum]
      split
      · exact ⟨some o.freshQuantum, by simp [createKey, ho.quantum, ho.quantumPub, Except.map]⟩
      · exact ⟨none, rfl⟩
  simp only [openJournal, hpriv, hqPriv, hreplay, ok_bind]
  exact ⟨_, rfl⟩

/-! ## The next event -/

variable (C F)

def Journal.seal (j : Journal) (now : Int) (body : B) : Event B :=
  let ev : Event B := {
    index := j.size
    timeNanos := now
    prevHash := j.prev
    body
    pubKey := C.edPublic j.priv
    quantumPubKey := match j.qPriv with
      | some q => C.dilPublic q
      | none => [] }
  let canon := ev.canonical F
  { ev with
    eventHash := C.sha256 canon
    signature := C.edSign j.priv canon
    quantumSignature := match j.qPriv with
      | some q => C.dilSign q canon
      | none => [] }

def Journal.advance (j : Journal) (ev : Event B) : Journal :=
  { j with size := j.size + 1, prev := ev.eventHash }

variable {C F}

lemma seal_valid (hC : Correct C) (j : Journal) (now : Int) (body : B) :
    (j.seal C F now body).Valid C F where
  hash := rfl
  signature := ⟨hC.edPublic_length j.priv, hC.edVerify_edSign j.priv _⟩
  quantum h := by
    cases hq : j.qPriv with
    | none => simp [Journal.seal, hq] at h
    | some q =>
      have hpub : (j.seal C F now body).quantumPubKey = C.dilPublic q := by simp [Journal.seal, hq]
      have hsig : (j.seal C F now body).quantumSignature =
          C.dilSign q ((j.seal C F now body).canonical F) := by
        simp [Journal.seal, hq, Event.canonical]
      rw [hpub, hsig]
      exact ⟨⟨hC.dilPublic_length q, hC.dilVerify_dilSign q _⟩, hC.dilSign_length q _⟩

structure Journal.After (last : Option (Event B)) (j : Journal) : Prop where
  size : j.size = sizeAfter last
  prev : j.prev = headHash last

lemma seal_follows {last : Option (Event B)} (h : j.After last) (now : Int) (body : B) :
    (j.seal C F now body).Follows last := by
  have hprev : (j.seal C F now body).prevHash = headHash last := h.prev
  have hindex : (j.seal C F now body).index = sizeAfter last := h.size
  cases last with
  | none =>
    have hzeros : allZeros (List.replicate 32 0) = true := by decide
    exact ⟨hprev ▸ hzeros, hindex⟩
  | some => exact ⟨hindex, hprev⟩

/-! ## A call -/

/-- How much of an event a failed write left in the file. -/
inductive Written
  | nothing
  | part
  | whole
  deriving DecidableEq

structure Io where
  openFile : Option Fault := none
  write : Option (Written × Fault) := none
  sync : Option Fault := none
  close : Option Fault := none

def Io.Clean (io : Io) : Prop :=
  io.openFile = none ∧ io.write = none ∧ io.sync = none ∧ io.close = none

def Io.written (io : Io) (l : Line) : List Piece :=
  match io.write with
  | none | some (.whole, _) => [.doc l]
  | some (.part, _) => [.broken]
  | some (.nothing, _) => []

def sysCall : Option Fault → Res Unit
  | none => .ok ()
  | some e => .error e

@[simp] lemma sysCall_ok {fault : Option Fault} {u : Unit} :
    sysCall fault = .ok u ↔ fault = none := by
  cases fault <;> simp [sysCall]

structure Outcome (B : Type) where
  journal : Journal
  file : List Piece
  result : Res (Event B)

def record (prepared : Res (Event B × Line)) (io : Io) (finish : Res Unit) (j : Journal)
    (file : List Piece) : Outcome B :=
  match prepared with
  | .error e => ⟨j, file, .error e⟩
  | .ok (ev, l) =>
    match finish with
    | .error e => ⟨j, file ++ io.written l, .error e⟩
    | .ok () => ⟨j.advance ev, file ++ io.written l, .ok ev⟩

def readRange (wrap : Res (Event B) → Res (Event B)) (decode : Piece → Res (Event B))
    (lo hi : Nat) : List Piece → Res (List (Event B))
  | [] => .ok []
  | p :: rest =>
    if p.isClose then .ok []
    else do
      let ev ← wrap (decode p)
      if ev.index ≥ hi then return []
      else
        let out ← readRange wrap decode lo hi rest
        return if ev.index ≥ lo then ev :: out else out

structure Log where
  Body : Type
  Args : Type
  format : Format Body
  body : Args → Res Body
  call : Crypto → Int → Io → Args → Journal → List Piece → Outcome Body
  range : Journal → List Piece → Nat → Nat → Res (List (Event Body))

/-- All that a call can do: fail before the write, fail after it, or return the next event. -/
def Outcome.Cases (C : Crypto) (L : Log) (now : Int) (io : Io) (a : L.Args) (j : Journal)
    (file : List Piece) (r : Outcome L.Body) : Prop :=
  (∃ e, r = ⟨j, file, .error e⟩) ∨
  ∃ b l, L.body a = .ok b ∧ L.format.marshal (j.seal C L.format now b) = .ok l ∧
    ((¬ io.Clean ∧ ∃ e, r = ⟨j, file ++ io.written l, .error e⟩) ∨
      r = ⟨j.advance (j.seal C L.format now b), file ++ [.doc l], .ok (j.seal C L.format now b)⟩)

lemma record_cases {C : Crypto} {L : Log} {now : Int} {io : Io} {a : L.Args} {file : List Piece}
    {prepared : Res (Event L.Body × Line)} {finish : Res Unit}
    (hprepared : ∀ ev l, prepared = .ok (ev, l) → ∃ b, L.body a = .ok b ∧
      ev = j.seal C L.format now b ∧ L.format.marshal ev = .ok l)
    (hfinish : finish = .ok () → io.write = none) (hclean : io.Clean → finish = .ok ()) :
    (record prepared io finish j file).Cases C L now io a j file := by
  unfold record
  split
  · rename_i e
    exact .inl ⟨e, rfl⟩
  · rename_i ev l
    obtain ⟨b, hb, rfl, hl⟩ := hprepared ev l rfl
    refine .inr ⟨b, l, hb, hl, ?_⟩
    split
    · rename_i e
      refine .inl ⟨fun h => ?_, e, rfl⟩
      cases hclean h
    · refine .inr ?_
      rw [Io.written, hfinish rfl]

structure Log.Lawful (L : Log) (Fits : L.Args → Prop) : Prop where
  cases : ∀ C now io a j file, (L.call C now io a j file).Cases C L now io a j file
  decodes : ∀ (C : Crypto) (j : Journal) (now : Int) (a : L.Args) (b : L.Body) (l : Line), Fits a →
    L.body a = .ok b → L.format.marshal (j.seal C L.format now b) = .ok l →
    L.format.unmarshal l = .ok (j.seal C L.format now b)
  /-- Without faults, a call with fields to record returns an event. -/
  succeeds : ∀ (C : Crypto) (j : Journal) (now : Int) (io : Io) (a : L.Args) (b : L.Body)
    (file : List Piece), Fits a → io.Clean → L.body a = .ok b →
    (L.call C now io a j file).result = .ok (j.seal C L.format now b)

/-! ## `Range` -/

lemma readRange_eq {wrap : Res (Event B) → Res (Event B)} {decode : Piece → Res (Event B)}
    (hwrap : ∀ ev, wrap (.ok ev) = .ok ev) (hclose : ∀ ev, decode .close ≠ .ok ev) {lo hi : Nat}
    {file : List Piece} {evs : List (Event B)} (hfile : file.map decode = evs.map .ok)
    (hsorted : evs.Pairwise fun a b => a.index < b.index) :
    readRange wrap decode lo hi file =
      .ok (evs.filter fun e => decide (lo ≤ e.index ∧ e.index < hi)) := by
  induction file generalizing evs with
  | nil =>
    obtain rfl := map_eq_nil_iff.mp hfile.symm
    rfl
  | cons p rest ih =>
    cases evs with
    | nil => simp at hfile
    | cons ev evs =>
      rw [map_cons, map_cons, List.cons.injEq] at hfile
      have hp : p.isClose = false := by
        cases p with
        | close => exact absurd hfile.1 (hclose ev)
        | _ => rfl
      obtain ⟨hlater, hrest⟩ := pairwise_cons.mp hsorted
      rw [readRange, hp, hfile.1, hwrap, ok_bind, ih hfile.2 hrest]
      by_cases hhi : ev.index ≥ hi
      · -- every later index is larger still
        have hnone : evs.filter (fun e => decide (lo ≤ e.index ∧ e.index < hi)) = [] := by
          rw [filter_eq_nil_iff]
          intro e he
          have := hlater e he
          simp only [decide_eq_true_eq, not_and, Nat.not_lt]
          omega
        rw [filter_cons_of_neg (by simp only [decide_eq_true_eq]; omega), hnone]
        simp [hhi, pure, Except.pure]
      · by_cases hlo : ev.index ≥ lo
        · simp [hhi, hlo, ok_bind, pure, Except.pure, Nat.lt_of_not_le hhi]
        · simp [hhi, hlo, ok_bind, pure, Except.pure]

end Stele.Journals
