import Stele.Storage.Producers
import Stele.Verify.Verifier
import Stele.Witness.Server

/-!
# What the signed bytes of checkpoints and statements bind

The formats are lines of text, and two of the texts in them are not escaped: the origin of a
checkpoint, and the roots of a witness's statement.
-/

namespace Stele

open Lib List

/-! ## Checkpoints -/

namespace Checkpoint

structure SameCommitment (c d : Checkpoint) : Prop where
  origin : c.origin = d.origin
  size : c.size = d.size
  rootHash : c.rootHash = d.rootHash
  headHash : c.headHash = d.headHash
  timeNanos : c.timeNanos = d.timeNanos
  epochIdx : c.epochIdx = d.epochIdx

/-- **The commitment is read off the front of a message in one way.** What the beacon and the group
digest hold comes after it. -/
theorem canonical_append_inj {c d : Checkpoint} (hc : NoNewline c.origin)
    (hd : NoNewline d.origin) {x y : Bytes} (h : c.canonical ++ x = d.canonical ++ y) :
    SameCommitment c d := by
  have hlit : ∀ {p a b : Bytes}, NoNewline p → NoNewline a → NoNewline b →
      NoNewline (p ++ a) ∧ NoNewline (p ++ b) :=
    fun hp ha hb => ⟨noNewline_append hp ha, noNewline_append hp hb⟩
  simp only [canonical, append_assoc] at h
  have h := append_cancel_left h
  obtain ⟨hl, hr⟩ := hlit (p := lit "origin: ") (by decide) hc hd
  obtain ⟨horigin, h⟩ := line_append_inj hl hr h
  obtain ⟨hl, hr⟩ := hlit (p := lit "size: ") (by decide) (dec_noNewline c.size)
    (dec_noNewline d.size)
  obtain ⟨hsize, h⟩ := line_append_inj hl hr h
  obtain ⟨hl, hr⟩ := hlit (p := lit "root: ") (by decide) (hex_noNewline c.rootHash)
    (hex_noNewline d.rootHash)
  obtain ⟨hroot, h⟩ := line_append_inj hl hr h
  obtain ⟨hl, hr⟩ := hlit (p := lit "head: ") (by decide) (hex_noNewline c.headHash)
    (hex_noNewline d.headHash)
  obtain ⟨hhead, h⟩ := line_append_inj hl hr h
  obtain ⟨hl, hr⟩ := hlit (p := lit "time: ") (by decide) (decInt_noNewline c.timeNanos)
    (decInt_noNewline d.timeNanos)
  obtain ⟨htime, h⟩ := line_append_inj hl hr h
  obtain ⟨hl, hr⟩ := hlit (p := lit "epoch: ") (by decide) (dec_noNewline c.epochIdx)
    (dec_noNewline d.epochIdx)
  obtain ⟨hepoch, -⟩ := line_append_inj hl hr h
  exact ⟨append_cancel_left horigin, dec_inj (append_cancel_left hsize),
    hex_inj (append_cancel_left hroot), hex_inj (append_cancel_left hhead),
    decInt_inj (append_cancel_left htime), dec_inj (append_cancel_left hepoch)⟩

lemma canonical_ne {c : Checkpoint} {head rest : Bytes} (hlen : 5 < head.length)
    (h : head[5]? ≠ some 47) : c.canonical ≠ head ++ rest := by
  simp only [canonical, append_assoc]
  exact append_ne_append (i := 5) (by decide) hlen fun heq => h (heq ▸ rfl)

end Checkpoint

namespace Witness

structure CrossAttestation where
  attesterID : Bytes
  attesterKey : Bytes
  peerID : Bytes
  peerKey : Bytes
  origin : Bytes
  overlappingSizes : Dict Nat Bytes
  issuedAt : Int
  peerStatementIssuedAt : Int

def CrossAttestation.canonical (c : CrossAttestation) : Bytes :=
  let sizes := c.overlappingSizes.keys.mergeSort
  line (lit "stele-cross/v0") ++ line (lit "attester: " ++ c.attesterID) ++
    line (lit "peer: " ++ c.peerID) ++ line (lit "origin: " ++ c.origin) ++
    line (lit "issued_at: " ++ decInt c.issuedAt) ++
    line (lit "peer_statement_issued_at: " ++ decInt c.peerStatementIssuedAt) ++
    line (lit "attester_key: " ++ hex c.attesterKey) ++ line (lit "peer_key: " ++ hex c.peerKey) ++
    line (lit "overlap_count: " ++ dec sizes.length) ++
    sizes.flatMap fun size => line (dec size ++ lit ":" ++ (c.overlappingSizes.lookup size).getD [])

/-- **Checkpoint bytes bind the commitment.** The bytes that the operator signs and those that a
witness signs determine the origin, the size, both hashes, the time and the epoch, whatever the
beacon and the group digest hold; and no checkpoint reads as a text that is signed for something
else. -/
theorem checkpoint_bytes_bind (c d : Checkpoint) (hc : NoNewline c.origin)
    (hd : NoNewline d.origin) :
    (c.canonical = d.canonical → c.SameCommitment d) ∧
    (c.canonicalForWitness = d.canonicalForWitness → c.SameCommitment d) ∧
    ∀ x : Checkpoint,
      (∀ cert : RotationCert, x.canonical ≠ cert.canonical) ∧
      (∀ p : Producer, x.canonical ≠ p.canonicalEnrollment) ∧
      (∀ s : SignedSeen, x.canonical ≠ s.canonical) ∧
      ∀ a : CrossAttestation, x.canonical ≠ a.canonical := by
  refine ⟨fun h => ?_, Checkpoint.canonical_append_inj hc hd, fun x => ⟨?_, ?_, ?_, ?_⟩⟩
  · exact Checkpoint.canonical_append_inj hc hd (congrArg (· ++ []) h)
  · intro cert
    simp only [RotationCert.canonical, append_assoc]
    exact Checkpoint.canonical_ne (by decide) (by decide)
  · intro p
    simp only [Producer.canonicalEnrollment, append_assoc]
    exact Checkpoint.canonical_ne (by decide) (by decide)
  · intro s
    simp only [SignedSeen.canonical, append_assoc]
    exact Checkpoint.canonical_ne (by decide) (by decide)
  · intro a
    simp only [CrossAttestation.canonical, append_assoc]
    exact Checkpoint.canonical_ne (by decide) (by decide)

theorem checkpoint_bytes_bind_beacon :
    let c : Checkpoint := { soloCheckpoint with
      beacon := some ⟨lit "none" ++ [newline] ++ lit "size: 9", 1, [], [], []⟩ }
    NoNewline c.origin ∧ ({ c with size := 9 } : Checkpoint).canonical ≠ c.canonical := by
  refine ⟨by decide, fun h => ?_⟩
  have hsame := (checkpoint_bytes_bind _ _ (by decide) (by decide)).1 h
  exact absurd hsame.size (by decide)

/-! ## Statements of witnesses -/

namespace SignedSeen

structure SameContent (s t : SignedSeen) : Prop where
  witnessID : s.witnessID = t.witnessID
  origin : s.origin = t.origin
  issuedAt : s.issuedAt = t.issuedAt
  publicKey : s.publicKey = t.publicKey
  seen : ∀ size, s.seen.lookup size = t.seen.lookup size

def rootAt (s : SignedSeen) (size : Nat) : Bytes := (s.seen.lookup size).getD []

/-- How the texts of a statement that nobody escapes break into lines: the ID, the origin, and the
roots by ascending size. -/
def layout (s : SignedSeen) : Nat × Nat × List Nat :=
  (breaks s.witnessID, breaks s.origin,
    s.seen.keys.mergeSort.map fun size => breaks (s.rootAt size))

structure OneLine (s : SignedSeen) : Prop where
  witnessID : NoNewline s.witnessID
  origin : NoNewline s.origin
  roots : ∀ size root, s.seen.lookup size = some root → NoNewline root

def entryLine (e : Nat × Bytes) : Bytes := line (dec e.1 ++ lit ":" ++ e.2)

def entries (s : SignedSeen) : List (Nat × Bytes) :=
  s.seen.keys.mergeSort.map fun size => (size, s.rootAt size)

lemma canonical_eq (s : SignedSeen) : s.canonical =
    line (lit "stele-seen/v0") ++ line (lit "witness_id: " ++ s.witnessID) ++
    line (lit "origin: " ++ s.origin) ++ line (lit "issued_at: " ++ decInt s.issuedAt) ++
    line (lit "pubkey: " ++ hex s.publicKey) ++ line (lit "entries: " ++ dec s.entries.length) ++
    s.entries.flatMap entryLine := by
  rw [entries, length_map, flatMap_map]
  rfl

/-- **Lines of sizes and roots are read back in one way** when the roots break alike. -/
theorem entryLines_inj {l l' : List (Nat × Bytes)} (hlen : l.length = l'.length)
    (hbreaks : l.map (fun e => breaks e.2) = l'.map fun e => breaks e.2)
    (h : l.flatMap entryLine = l'.flatMap entryLine) : l = l' := by
  induction l generalizing l' with
  | nil =>
    cases l' with
    | nil => rfl
    | cons => cases hlen
  | cons e l ih =>
    cases l' with
    | nil => cases hlen
    | cons e' =>
      simp only [map_cons, List.cons.injEq] at hbreaks
      simp only [flatMap_cons, entryLine] at h
      have hdec : ∀ n, breaks (dec n) = 0 := fun n => breaks_eq_zero.mpr (dec_noNewline n)
      obtain ⟨hline, hrest⟩ := line_append_inj_of_breaks (by simp [hdec, hbreaks.1]) h
      -- a decimal number has no colon, so the first one ends the size
      have hcolon : ∀ n, (dec n).count 58 = 0 := by
        intro n
        refine count_eq_zero.mpr fun hmem => ?_
        have hrange := dec_range hmem
        revert hrange
        decide
      have hsplit : dec e.1 ++ 58 :: e.2 = dec e'.1 ++ 58 :: e'.2 := by
        rw [append_assoc, append_assoc] at hline
        exact hline
      obtain ⟨hsize, hroot⟩ := split_inj ((hcolon _).trans (hcolon _).symm) hsplit
      rw [ih (by simpa using hlen) hbreaks.2 hrest, Prod.ext (dec_inj hsize) hroot]

lemma mem_entries {s : SignedSeen} {size : Nat} {root : Bytes} :
    (size, root) ∈ s.entries ↔ s.seen.lookup size = some root := by
  simp only [entries, mem_map, mem_mergeSort, Prod.mk.injEq, rootAt]
  constructor
  · rintro ⟨n, hn, rfl, rfl⟩
    obtain ⟨r, hr⟩ := Option.isSome_iff_exists.mp (AList.lookup_isSome.mpr (AList.mem_keys.mpr hn))
    rw [hr, Option.getD_some]
  · intro hroot
    refine ⟨size, AList.mem_keys.mp (AList.lookup_isSome.mp ?_), rfl, ?_⟩
    · rw [hroot]
      rfl
    · rw [hroot, Option.getD_some]

lemma sorted_sizes {m m' : Dict Nat Bytes} (h : ∀ size, m.lookup size = m'.lookup size) :
    m.keys.mergeSort = m'.keys.mergeSort := by
  have hmem : ∀ size, size ∈ m.keys ↔ size ∈ m'.keys := by
    intro size
    rw [← AList.mem_keys, ← AList.lookup_isSome, h, AList.lookup_isSome, AList.mem_keys]
  have hperm : m.keys.mergeSort.Perm m'.keys.mergeSort :=
    calc m.keys.mergeSort.Perm m.keys := List.mergeSort_perm _ _
      _ |>.Perm m'.keys := (perm_ext_iff_of_nodup m.keys_nodup m'.keys_nodup).mpr hmem
      _ |>.Perm m'.keys.mergeSort := (List.mergeSort_perm _ _).symm
  have hsorted : ∀ l : List Nat, l.mergeSort.Pairwise fun a b => decide (a ≤ b) = true :=
    pairwise_mergeSort (by simpa using fun a b c => Nat.le_trans) (by simpa using Nat.le_total)
  refine hperm.eq_of_pairwise (fun a b _ _ hab hba => ?_) (hsorted _) (hsorted _)
  exact Nat.le_antisymm (by simpa using hab) (by simpa using hba)

variable {s t : SignedSeen}

lemma SameContent.layout_eq (h : SameContent s t) : s.layout = t.layout := by
  have hroots : ∀ size, s.rootAt size = t.rootAt size := fun size => by rw [rootAt, rootAt, h.seen]
  simp only [layout, h.witnessID, h.origin, sorted_sizes h.seen, hroots]

lemma header_inj (h : s.canonical = t.canonical)
    (hid : breaks s.witnessID = breaks t.witnessID) (horigin : breaks s.origin = breaks t.origin) :
    s.witnessID = t.witnessID ∧ s.origin = t.origin ∧ s.issuedAt = t.issuedAt ∧
      s.publicKey = t.publicKey ∧ s.entries.length = t.entries.length ∧
      s.entries.flatMap entryLine = t.entries.flatMap entryLine := by
  rw [canonical_eq, canonical_eq] at h
  simp only [append_assoc] at h
  have h := append_cancel_left h
  obtain ⟨hid, h⟩ := line_append_inj_of_breaks (by simp [hid]) h
  obtain ⟨horigin, h⟩ := line_append_inj_of_breaks (by simp [horigin]) h
  obtain ⟨hissued, h⟩ := line_append_inj (noNewline_append (by decide) (decInt_noNewline _))
    (noNewline_append (by decide) (decInt_noNewline _)) h
  obtain ⟨hpub, h⟩ := line_append_inj (noNewline_append (by decide) (hex_noNewline _))
    (noNewline_append (by decide) (hex_noNewline _)) h
  obtain ⟨hcount, h⟩ := line_append_inj (noNewline_append (by decide) (dec_noNewline _))
    (noNewline_append (by decide) (dec_noNewline _)) h
  exact ⟨append_cancel_left hid, append_cancel_left horigin,
    decInt_inj (append_cancel_left hissued), hex_inj (append_cancel_left hpub),
    dec_inj (append_cancel_left hcount), h⟩

/-- **A statement is read back in one way** when the texts break into as many lines. -/
theorem sameContent_of_breaks (h : s.canonical = t.canonical)
    (hid : breaks s.witnessID = breaks t.witnessID) (horigin : breaks s.origin = breaks t.origin)
    (hroots : s.entries.length = t.entries.length →
      s.entries.map (fun e => breaks e.2) = t.entries.map fun e => breaks e.2) :
    SameContent s t := by
  obtain ⟨hid, horigin, hissued, hpub, hlen, hlines⟩ := header_inj h hid horigin
  have hentries := entryLines_inj hlen (hroots hlen) hlines
  refine ⟨hid, horigin, hissued, hpub, fun size => ?_⟩
  ext root
  rw [← mem_entries, hentries, mem_entries]

/-! ### Statements as they arrive -/

def parseSize (key : String) : Res Nat :=
  let n := Nat.ofDigitChars 10 key.toList 0
  if key.toList ≠ [] ∧ key.toList.all Char.isDigit ∧ n < 2 ^ 64 then .ok n
  else .error Json.typeError

def readSeen : Dict Nat Bytes → List (String × Json) → Res (Dict Nat Bytes)
  | m, [] => .ok m
  | m, (key, v) :: fields => do
    let size ← parseSize key
    let root ← Json.getStr v
    readSeen (m.insert size root) fields

def getSeen : Json → Res (Dict Nat Bytes)
  | .null => .ok ∅
  | .obj fields => readSeen ∅ fields
  | _ => .error Json.typeError

def ofJson (j : Json) : Res SignedSeen := do
  return {
    witnessID := ← j.field "witness_id" >>= Json.getStr
    publicKey := ← j.field "public_key" >>= Json.getBytes
    keyID := ← j.field "key_id" >>= Json.getStr
    origin := ← j.field "origin" >>= Json.getStr
    seen := ← j.field "seen" >>= getSeen
    issuedAt := ← j.field "issued_at" >>= Json.getInt
    signature := ← j.field "signature" >>= Json.getBytes }

end SignedSeen

/-- **A signed statement binds its content exactly as far as its texts break into lines alike**:
two statements with the same bytes say the same if and only if their IDs, their origins and their
roots, size by size, have as many newlines. So statements without newlines bind their content. -/
theorem statement_binds_iff (s t : SignedSeen) :
    ((s.canonical = t.canonical → s.SameContent t) ↔
      (s.canonical = t.canonical → s.layout = t.layout)) ∧
    (s.OneLine → t.OneLine → s.canonical = t.canonical → s.SameContent t) := by
  refine ⟨⟨fun hsame h => (hsame h).layout_eq, fun hlayout h => ?_⟩, fun hs ht h => ?_⟩
  · obtain ⟨hid, hrest⟩ := Prod.mk.inj (hlayout h)
    obtain ⟨horigin, hroots⟩ := Prod.mk.inj hrest
    refine SignedSeen.sameContent_of_breaks h hid horigin fun _ => ?_
    rw [SignedSeen.entries, SignedSeen.entries, map_map, map_map]
    exact hroots
  · refine SignedSeen.sameContent_of_breaks h ?_ ?_ fun hlen => ?_
    · rw [breaks_eq_zero.mpr hs.witnessID, breaks_eq_zero.mpr ht.witnessID]
    · rw [breaks_eq_zero.mpr hs.origin, breaks_eq_zero.mpr ht.origin]
    · have hzero : ∀ x : SignedSeen, x.OneLine →
          x.entries.map (fun e => breaks e.2) = List.replicate x.entries.length 0 := by
        intro x hx
        refine eq_replicate_iff.mpr ⟨length_map _, fun n hn => ?_⟩
        obtain ⟨⟨size, root⟩, he, rfl⟩ := mem_map.mp hn
        exact breaks_eq_zero.mpr (hx.roots size root (SignedSeen.mem_entries.mp he))
      rw [hzero s hs, hzero t ht, hlen]

def twoLines (a b : String) : Bytes := lit a ++ newline :: lit b

def threeLines : Bytes :=
  line (lit "stele-seen/v0") ++ line (lit "witness_id: w") ++ line (lit "origin: log") ++
    line (lit "issued_at: 1") ++ line (lit "pubkey: " ++ hex (List.replicate 32 7)) ++
    line (lit "entries: 2") ++ line (lit "5:aa") ++ line (lit "7:bb") ++ line (lit "9:cc")

def presented (seen : Dict Nat Bytes) : SignedSeen where
  witnessID := lit "w"
  publicKey := List.replicate 32 7
  keyID := []
  origin := lit "log"
  seen := seen
  issuedAt := 1
  signature := Crypto.sample.edSign (List.replicate 32 7) threeLines

def presentedDoc (seen : List (String × Json)) : Json := .obj
  [("witness_id", .str (lit "w")), ("public_key", .ofBytes (List.replicate 32 7)),
    ("key_id", .str []), ("origin", .str (lit "log")), ("seen", .obj seen), ("issued_at", .num 1),
    ("signature", .ofBytes (presented ∅).signature)]

lemma ofJson_presentedDoc {fields : List (String × Json)} {seen : Dict Nat Bytes}
    (h : SignedSeen.readSeen ∅ fields = .ok seen) :
    SignedSeen.ofJson (presentedDoc fields) = .ok (presented seen) := by
  simp only [SignedSeen.ofJson, presentedDoc, Json.field, Json.lastField, String.reduceEq,
    ↓reduceIte, ok_bind, Json.getStr, Json.getBytes_ofBytes, SignedSeen.getSeen, h, Json.getInt]
  rfl

def firstReading : Dict Nat Bytes :=
  ((∅ : Dict Nat Bytes).insert 9 (lit "cc")).insert 5 (twoLines "aa" "7:bb")

def secondReading : Dict Nat Bytes :=
  ((∅ : Dict Nat Bytes).insert 7 (twoLines "bb" "9:cc")).insert 5 (lit "aa")

lemma canonical_presented {seen : Dict Nat Bytes} (hsorted : seen.keys.Pairwise (· ≤ ·))
    (htext : (seen.keys.map fun size => (size, (seen.lookup size).getD [])).flatMap
        SignedSeen.entryLine = line (lit "5:aa") ++ line (lit "7:bb") ++ line (lit "9:cc"))
    (hlen : seen.keys.length = 2) : (presented seen).canonical = threeLines := by
  have hkeys : seen.keys.mergeSort = seen.keys := mergeSort_of_pairwise (by simpa using hsorted)
  have hentries : (presented seen).entries =
      seen.keys.map fun size => (size, (seen.lookup size).getD []) := by
    rw [SignedSeen.entries, show (presented seen).seen = seen from rfl, hkeys]
    rfl
  rw [SignedSeen.canonical_eq, hentries, htext, length_map, hlen]
  rfl

/-- **One signature, two statements.** Both decode, have the same bytes, the same key and the same
signature, so that `Verify` accepts both; and they have different roots at size 5. -/
theorem one_signature_two_statements :
    let s := presented firstReading
    let t := presented secondReading
    SignedSeen.ofJson (presentedDoc
      [("9", .str (lit "cc")), ("5", .str (twoLines "aa" "7:bb"))]) = .ok s ∧
    SignedSeen.ofJson (presentedDoc
      [("7", .str (twoLines "bb" "9:cc")), ("5", .str (lit "aa"))]) = .ok t ∧
    s.canonical = t.canonical ∧ s.publicKey = t.publicKey ∧ s.signature = t.signature ∧
    s.verify .sample = .ok () ∧ t.verify .sample = .ok () ∧
    s.seen.lookup 5 = some (twoLines "aa" "7:bb") ∧ t.seen.lookup 5 = some (lit "aa") ∧
    s.findContradiction t = some 5 := by
  have hs : (presented firstReading).canonical = threeLines :=
    canonical_presented (by decide +kernel) (by decide +kernel) (by decide +kernel)
  have ht : (presented secondReading).canonical = threeLines :=
    canonical_presented (by decide +kernel) (by decide +kernel) (by decide +kernel)
  refine ⟨ofJson_presentedDoc rfl, ofJson_presentedDoc rfl, hs.trans ht.symm, rfl, rfl, ?_, ?_,
    by decide +kernel, by decide +kernel, by decide +kernel⟩
  · rw [SignedSeen.verify, hs]
    decide +kernel
  · rw [SignedSeen.verify, ht]
    decide +kernel

end Witness

end Stele
