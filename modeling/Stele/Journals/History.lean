import Stele.Journals.Runs

/-!
# Whose events a journal accepts

`replay` checks each event against the key that the event carries, and stops reading at a stray
closing bracket. The keys of the journal are never compared with those of its events.
-/

namespace Stele.Journals

open Lib List

variable {C : Crypto} {B : Type} {F : Format B}

def behind (file : List Piece) : List Piece := (file.dropWhile fun p => !p.isClose).tail

variable (C) in
structure Event.Names (j : Journal) (e : Event B) : Prop where
  pubKey : e.pubKey = C.edPublic j.priv
  quantumPubKey : ∀ q, j.qPriv = some q → e.quantumPubKey ≠ [] → e.quantumPubKey = C.dilPublic q

variable (C F) in
structure Event.By (j : Journal) (e : Event B) : Prop where
  signature : e.pubKey = C.edPublic j.priv ∧
    C.EdValid (C.edPublic j.priv) (e.canonical F) e.signature
  hash : e.eventHash = C.sha256 (e.canonical F)
  quantum : ∀ q, j.qPriv = some q → e.quantumPubKey ≠ [] → e.quantumPubKey = C.dilPublic q ∧
    C.DilValid (C.dilPublic q) (e.canonical F) e.quantumSignature

lemma Event.Valid.by {j : Journal} {e : Event B} (h : e.Valid C F) (hn : e.Names C j) :
    e.By C F j where
  signature := ⟨hn.pubKey, hn.pubKey ▸ h.signature⟩
  hash := h.hash
  quantum q hq hne := by
    have hpub := hn.quantumPubKey q hq hne
    exact ⟨hpub, hpub ▸ (h.quantum (.inl hne)).1⟩

lemma Event.By.names {j : Journal} {e : Event B} (h : e.By C F j) : e.Names C j :=
  ⟨h.signature.1, fun q hq hne => (h.quantum q hq hne).1⟩

lemma events_append (file file' : List Piece) :
    events F (file ++ file') = events F file ++ events F file' := filterMap_append

lemma events_of_decoded {file : List Piece} {evs : List (Event B)}
    (h : file.map (Piece.decode F) = evs.map .ok) : events F file = evs := by
  have hmap : events F file = (file.map (Piece.decode F)).filterMap Except.toOption := by
    rw [filterMap_map]
    rfl
  rw [hmap, h, filterMap_map]
  exact filterMap_some

lemma events_split (file : List Piece) :
    events F file = events F (reached file) ++ events F (behind file) := by
  have hfile : file = reached file ++ file.dropWhile fun p => !p.isClose :=
    takeWhile_append_dropWhile.symm
  have hrest : events F (file.dropWhile fun p => !p.isClose) = events F (behind file) := by
    unfold behind
    cases hdrop : file.dropWhile fun p => !p.isClose with
    | nil => rfl
    | cons p =>
      have hp := head?_dropWhile_not (fun p : Piece => !p.isClose) file
      rw [hdrop] at hp
      cases p with
      | close => rfl
      | _ => cases hp
  conv_lhs => rw [hfile]
  rw [events_append, hrest]

structure Event.Sized (Body : B → Prop) (e : Event B) : Prop where
  index : e.index < 2 ^ 64
  timeNanos : IsInt64 e.timeNanos
  prevHash : e.prevHash.length < 2 ^ 32
  body : Body e.body
  quantumPubKey : e.quantumPubKey.length < 2 ^ 32

structure Event.Agree (e f : Event B) : Prop where
  index : e.index = f.index
  timeNanos : e.timeNanos = f.timeNanos
  prevHash : e.prevHash = f.prevHash
  body : e.body = f.body
  quantumPubKey : e.quantumPubKey = f.quantumPubKey

def Kind.Sized : (k : Kind) → k.log.Body → Prop
  | .admin => AdminLog.Body.Sized
  | .read => ReadLog.Body.Sized

lemma Kind.canonical_append_inj (k : Kind) {b b' : k.log.Body} {x y : Bytes} (hb : k.Sized b)
    (hb' : k.Sized b')
    (h : k.log.format.canonical b ++ x = k.log.format.canonical b' ++ y) : b = b' ∧ x = y := by
  cases k with
  | admin => exact AdminLog.canonical_append_inj hb hb' h
  | read => exact ReadLog.canonical_append_inj hb hb' h

lemma Kind.agree_of_canonical (k : Kind) {e f : Event k.log.Body} (he : e.Sized k.Sized)
    (hf : f.Sized k.Sized) (h : e.canonical k.log.format = f.canonical k.log.format) :
    e.Agree f := by
  obtain ⟨hindex, h⟩ := be_append_inj he.index hf.index h
  obtain ⟨htime, h⟩ := be_append_inj (u64_lt _) (u64_lt _) h
  obtain ⟨hprev, h⟩ := put_append_inj he.prevHash hf.prevHash h
  obtain ⟨hbody, h⟩ := k.canonical_append_inj he.body hf.body h
  rw [← append_nil (put e.quantumPubKey), ← append_nil (put f.quantumPubKey)] at h
  exact ⟨hindex, u64_inj he.timeNanos hf.timeNanos htime, hprev, hbody,
    (put_append_inj he.quantumPubKey hf.quantumPubKey h).1⟩

def sampleDir (k : Kind) (args : k.log.Args) (seed : UInt8) : Dir :=
  { (run (step Keys.paired) ({} : State k.log)
      [.start (sampleOpening false seed), .call 5 {} args]).dir with
    key := some (b64 (List.replicate Keys.edPrivateKeySize 1) ++ [newline]) }

def sampleOpen (k : Kind) (args : k.log.Args) (seed : UInt8) : Res Journal :=
  (openJournal Keys.paired k.log.format (sampleOpening false 1) (sampleDir k args seed)).2

lemma opened_of_key {x : Res Journal} (pub : Bytes)
    (h : x.toOption.map (fun j => Keys.paired.edPublic j.priv) = some pub) :
    ∃ j, x = .ok j ∧ Keys.paired.edPublic j.priv = pub := by
  cases x with
  | error => cases h
  | ok j => exact ⟨j, rfl, Option.some.inj h⟩

lemma not_by_of_key {k : Kind} {args : k.log.Args} (own : Bytes)
    (hopen : (sampleOpen k args 2).toOption.map (fun j => Keys.paired.edPublic j.priv) = some own)
    (hother : ∃ e ∈ events k.log.format (sampleDir k args 2).file, e.pubKey ≠ own) :
    ∃ j, sampleOpen k args 2 = .ok j ∧ ∃ e ∈ events k.log.format (sampleDir k args 2).file,
      ¬ e.By Keys.paired k.log.format j := by
  obtain ⟨j, hj, rfl⟩ := opened_of_key own hopen
  obtain ⟨e, he, hne⟩ := hother
  exact ⟨j, hj, e, he, fun hby => hne hby.signature.1⟩

end Stele.Journals
