import Mathlib.Data.List.DropRight
import Stele.Lib.Fault
import Stele.Lib.Text

/-!
# DNS trust records (`pkg/trustdns`)

The text of a record is `key=value` parts between semicolons. `ParseTXT` splits, trims and
lower-cases; the values are padded base64 and hexadecimal.

What `strings.TrimSpace` and `strings.ToLower` do with bytes outside of ASCII is a parameter
(`Unicode`); both look for such a byte first.
-/

namespace Stele.Trustdns

open Lib List

structure Record where
  origin : Bytes := []
  rootPublicKey : Bytes := []
  rootQuantumPublicKey : Bytes := []
  chainDigest : Bytes := []
  witnesses : List Bytes := []
  version : Bytes := []
  deriving DecidableEq, Repr

/-! ## The text functions -/

/-- The functions that package `strings` uses for a text with a byte outside of ASCII. -/
structure Unicode where
  trimFunc : Bytes → Bytes
  trimRightFunc : Bytes → Bytes
  mapLower : Bytes → Bytes

def asciiSpace (c : UInt8) : Bool := c = 9 ∨ c = 10 ∨ c = 11 ∨ c = 12 ∨ c = 13 ∨ c = 32

def trimSpace (U : Unicode) (s : Bytes) : Bytes :=
  let s := s.dropWhile asciiSpace
  if s.head?.any (0x80 ≤ ·) then U.trimFunc s
  else
    let s := s.rdropWhile asciiSpace
    if s.getLast?.any (0x80 ≤ ·) then U.trimRightFunc s else s

def toLower (U : Unicode) (s : Bytes) : Bytes :=
  if s.all (· < 0x80) then s.map fun c => if 65 ≤ c ∧ c ≤ 90 then c + 32 else c
  else U.mapLower s

def hexVal (c : UInt8) : Option Nat :=
  let n := c.toNat
  if 48 ≤ n ∧ n ≤ 57 then some (n - 48)
  else if 97 ≤ n ∧ n ≤ 102 then some (n - 87)
  else if 65 ≤ n ∧ n ≤ 70 then some (n - 55)
  else none

def unhex : Bytes → Option Bytes
  | [] => some []
  | [_] => none
  | a :: b :: rest => do
    let a ← hexVal a
    let b ← hexVal b
    return UInt8.ofNat (a * 16 + b) :: (← unhex rest)

/-! ## `FormatTXT` and `ParseTXT` -/

def semicolon : UInt8 := 59
def equals : UInt8 := 61
def comma : UInt8 := 44

def formatFields (r : Record) : List (Bytes × Bytes) :=
  [(lit "v", lit "stele/v1"), (lit "root_pubkey", b64 r.rootPublicKey)] ++
    (if r.rootQuantumPublicKey ≠ [] then
      [(lit "root_qpubkey", b64 r.rootQuantumPublicKey)] else []) ++
    (if r.chainDigest ≠ [] then [(lit "chain_digest", hex r.chainDigest)] else []) ++
    if r.witnesses ≠ [] then
      [(lit "witnesses", [comma].intercalate (r.witnesses.map b64))] else []

def formatPart (f : Bytes × Bytes) : Bytes := f.1 ++ equals :: f.2

def formatTXT (r : Record) : Bytes := (lit "; ").intercalate ((formatFields r).map formatPart)

section
variable (U : Unicode)

def decodeBase64 (s : Bytes) : Res Bytes :=
  match unb64 (trimSpace U s) with
  | some b => .ok b
  | none => .error (errorf "illegal base64 data" [])

def decodeHex (s : Bytes) : Res Bytes :=
  match unhex (trimSpace U s) with
  | some b => .ok b
  | none => .error (errorf "encoding/hex: invalid text" [])

def parseWitnesses : List Bytes → List Bytes → Res (List Bytes)
  | ws, [] => .ok ws
  | ws, w :: rest =>
    let w := trimSpace U w
    if w = [] then parseWitnesses ws rest
    else do
      let b ← wrapErr "trustdns: witness: %w" [] (decodeBase64 U w)
      parseWitnesses (ws ++ [b]) rest

def parseField (rec : Record) (k v : Bytes) : Res Record :=
  if k = lit "v" ∨ k = lit "version" then .ok { rec with version := v }
  else if k = lit "root_pubkey" then do
    let b ← wrapErr "trustdns: root_pubkey: %w" [] (decodeBase64 U v)
    return { rec with rootPublicKey := b }
  else if k = lit "root_qpubkey" then do
    let b ← wrapErr "trustdns: root_qpubkey: %w" [] (decodeBase64 U v)
    return { rec with rootQuantumPublicKey := b }
  else if k = lit "chain_digest" then do
    let b ← wrapErr "trustdns: chain_digest: %w" [] (decodeHex U v)
    return { rec with chainDigest := b }
  else if k = lit "witnesses" then do
    let ws ← parseWitnesses U rec.witnesses (v.splitOn comma)
    return { rec with witnesses := ws }
  else .ok rec

/-- One part: `strings.SplitN` at the first equals sign; a part without one is skipped. -/
def parsePart (rec : Record) (part : Bytes) : Res Record :=
  let part := trimSpace U part
  match part.dropWhile (· ≠ equals) with
  | [] => .ok rec
  | _ :: v =>
    let k := part.takeWhile (· ≠ equals)
    parseField U rec (toLower U (trimSpace U k)) (trimSpace U v)

def parseTXT (raw : Bytes) : Res Record := do
  ensure (raw ≠ []) (errorf "trustdns: empty TXT body" [])
  let rec ← (raw.splitOn semicolon).foldlM (parsePart U) {}
  ensure (rec.rootPublicKey ≠ []) (errorf "trustdns: TXT record missing root_pubkey" [])
  ensure (rec.version = [] ∨ lit "stele/v" <+: rec.version)
    (errorf "trustdns: unrecognised version %q" [.bytes rec.version])
  return rec

end

/-! ## Texts that are left as they are -/

def Plain (s : Bytes) : Prop := ∀ c ∈ s, 32 < c ∧ c < 0x80 ∧ c ≠ semicolon

instance (s : Bytes) : Decidable (Plain s) := inferInstanceAs (Decidable (∀ c ∈ s, _))

lemma plain_b64 (b : Bytes) : Plain (b64 b) := by
  have hchar : ∀ v : Fin 64, 32 < b64Char v ∧ b64Char v < 0x80 ∧ b64Char v ≠ semicolon := by decide
  exact b64_forall (fun v hv => hchar ⟨v, hv⟩) (by decide) b

lemma comma_notMem_b64 (b : Bytes) : comma ∉ b64 b := by
  have hchar : ∀ v : Fin 64, b64Char v ≠ comma := by decide
  exact fun h => b64_forall (P := (· ≠ comma)) (fun v hv => hchar ⟨v, hv⟩) (by decide) b _ h rfl

lemma hexDigit_spec {d : Nat} (h : d < 16) : hexVal (hexDigit d) = some d ∧
    32 < hexDigit d ∧ hexDigit d < 0x80 ∧ hexDigit d ≠ semicolon := by
  have hall : ∀ d : Fin 16, hexVal (hexDigit d) = some d.val ∧
    32 < hexDigit d ∧ hexDigit d < 0x80 ∧ hexDigit d ≠ semicolon := by decide
  exact hall ⟨d, h⟩

lemma plain_hex (b : Bytes) : Plain (hex b) := by
  induction b with
  | nil => simp [Plain]
  | cons c b ih =>
    have hc := c.toNat_lt
    rw [hex_cons]
    exact forall_mem_cons.mpr ⟨(hexDigit_spec (by omega)).2,
      forall_mem_cons.mpr ⟨(hexDigit_spec (by omega)).2, ih⟩⟩

lemma unhex_hex (b : Bytes) : unhex (hex b) = some b := by
  induction b with
  | nil => rfl
  | cons c b ih =>
    have hc := c.toNat_lt
    have hbyte : UInt8.ofNat (c.toNat / 16 * 16 + c.toNat % 16) = c := by
      rw [Nat.div_add_mod' c.toNat 16, UInt8.ofNat_toNat]
    rw [hex_cons, unhex, (hexDigit_spec (show c.toNat / 16 < 16 by omega)).1,
      (hexDigit_spec (show c.toNat % 16 < 16 by omega)).1, ih]
    exact congrArg (fun x => some (x :: b)) hbyte

lemma plain_append {s t : Bytes} (hs : Plain s) (ht : Plain t) : Plain (s ++ t) :=
  forall_mem_append.mpr ⟨hs, ht⟩

lemma plain_intercalate {ls : List Bytes} (h : ∀ l ∈ ls, Plain l) :
    Plain ([comma].intercalate ls) := by
  induction ls with
  | nil => simp [Plain]
  | cons l ls ih =>
    obtain ⟨hl, hls⟩ := forall_mem_cons.mp h
    cases ls with
    | nil => simpa using hl
    | cons =>
      rw [intercalate_cons_cons]
      exact plain_append (plain_append hl (by decide +kernel)) (ih hls)

section
variable {U : Unicode}

lemma Plain.not_space {s : Bytes} (h : Plain s) {c : UInt8} (hc : c ∈ s) : ¬asciiSpace c := by
  obtain ⟨hlow, -⟩ := h c hc
  simp only [asciiSpace, decide_eq_true_eq]
  rintro (rfl | rfl | rfl | rfl | rfl | rfl) <;> revert hlow <;> decide

lemma trimSpace_plain {s : Bytes} (h : Plain s) : trimSpace U s = s := by
  have hleft : s.dropWhile asciiSpace = s := by
    cases s with
    | nil => rfl
    | cons => exact dropWhile_cons_of_neg (h.not_space mem_cons_self)
  have hright : s.rdropWhile asciiSpace = s :=
    rdropWhile_eq_self_iff.mpr fun hne => h.not_space (getLast_mem hne)
  have hascii : ∀ o : Option UInt8, (∀ c ∈ o, c ∈ s) → ¬o.any (0x80 ≤ ·) := by
    rintro (_ | c) ho
    · simp
    · simpa using (h c (ho c rfl)).2.1
  rw [trimSpace, hleft, if_neg (hascii _ fun c hc => mem_of_mem_head? hc), hright,
    if_neg (hascii _ fun c hc => mem_of_getLast? hc)]

lemma trimSpace_space (s : Bytes) : trimSpace U (32 :: s) = trimSpace U s := rfl

structure Tame (U : Unicode) (f : Bytes × Bytes) : Prop where
  key : Plain f.1
  noEquals : equals ∉ f.1
  lower : toLower U f.1 = f.1
  value : Plain f.2

variable {f : Bytes × Bytes}

lemma Tame.plain (h : Tame U f) : Plain (formatPart f) :=
  plain_append h.key (forall_mem_cons.mpr ⟨by decide, h.value⟩)

lemma parsePart_eq (h : Tame U f) (rec : Record) {part : Bytes}
    (hpart : part = formatPart f ∨ part = 32 :: formatPart f) :
    parsePart U rec part = parseField U rec f.1 f.2 := by
  have htrim : trimSpace U part = formatPart f := by
    rcases hpart with rfl | rfl
    · exact trimSpace_plain h.plain
    · rw [trimSpace_space, trimSpace_plain h.plain]
  have hkey : ∀ c ∈ f.1, decide (c ≠ equals) = true := fun c hc =>
    decide_eq_true (ne_of_mem_of_not_mem hc h.noEquals)
  have hvalue : (formatPart f).dropWhile (· ≠ equals) = equals :: f.2 := by
    rw [formatPart, dropWhile_append_of_pos hkey]
    simp
  have hname : (formatPart f).takeWhile (· ≠ equals) = f.1 := by
    rw [formatPart, takeWhile_append_of_pos hkey]
    simp
  simp only [parsePart, htrim, hvalue, hname, trimSpace_plain h.key, h.lower,
    trimSpace_plain h.value]

lemma parseParts_eq {fs : List (Bytes × Bytes)} (h : ∀ f ∈ fs, Tame U f) (rec : Record) :
    (fs.map fun f => 32 :: formatPart f).foldlM (parsePart U) rec =
      fs.foldlM (fun rec f => parseField U rec f.1 f.2) rec := by
  rw [foldlM_map]
  induction fs generalizing rec with
  | nil => rfl
  | cons f fs ih =>
    obtain ⟨hf, hfs⟩ := forall_mem_cons.mp h
    rw [foldlM_cons, foldlM_cons, parsePart_eq hf rec (.inr rfl)]
    exact congrArg _ (funext fun rec => ih hfs rec)

lemma intercalate_cons_head (sep : Bytes) (c : UInt8) (p : Bytes) (ps : List Bytes) :
    sep.intercalate ((c :: p) :: ps) = c :: sep.intercalate (p :: ps) := by
  cases ps with
  | nil => simp
  | cons => simp [intercalate_cons_cons]

lemma intercalate_spaced (p : Bytes) (ps : List Bytes) :
    (lit "; ").intercalate (p :: ps) = [semicolon].intercalate (p :: ps.map (32 :: ·)) := by
  induction ps generalizing p with
  | nil => simp
  | cons q ps ih =>
    rw [map_cons, intercalate_cons_cons, intercalate_cons_cons,
      intercalate_cons_head, ← ih q, append_assoc, append_assoc]
    rfl

lemma splitOn_formatted {fs : List (Bytes × Bytes)} (hf : Tame U f) (hfs : ∀ f ∈ fs, Tame U f) :
    ((lit "; ").intercalate ((f :: fs).map formatPart)).splitOn semicolon =
      formatPart f :: fs.map fun f => 32 :: formatPart f := by
  have hno : ∀ {s : Bytes}, Plain s → semicolon ∉ s := fun hs hmem => (hs _ hmem).2.2 rfl
  rw [map_cons, intercalate_spaced, map_map]
  refine splitOn_intercalate _ (forall_mem_cons.mpr ⟨hno hf.plain, ?_⟩)
    (cons_ne_nil _ _)
  intro l hl
  obtain ⟨g, hg, rfl⟩ := mem_map.mp hl
  exact not_mem_cons_of_ne_of_not_mem (by decide) (hno (hfs g hg).plain)

/-! ## The fields of a record -/

lemma toLower_eq {k : Bytes} (h : ∀ c ∈ k, c < 0x80 ∧ ¬(65 ≤ c ∧ c ≤ 90)) :
    toLower U k = k := by
  have hall : k.all (· < 0x80) = true := by simpa using fun c hc => (h c hc).1
  rw [toLower, if_pos hall]
  exact (map_congr_left fun c hc => if_neg (h c hc).2).trans (map_id _)

lemma tame_of_key {k v : Bytes} (hk : k ∈ [lit "v", lit "root_pubkey", lit "root_qpubkey",
    lit "chain_digest", lit "witnesses"]) (hv : Plain v) : Tame U (k, v) := by
  have hkeys : ∀ k ∈ [lit "v", lit "root_pubkey", lit "root_qpubkey", lit "chain_digest",
      lit "witnesses"], Plain k ∧ equals ∉ k ∧ ∀ c ∈ k, c < 0x80 ∧ ¬(65 ≤ c ∧ c ≤ 90) := by
    decide +kernel
  obtain ⟨hplain, hno, hlower⟩ := hkeys k hk
  exact ⟨hplain, hno, toLower_eq hlower, hv⟩

lemma tame_optional {c : Prop} [Decidable c] (h : Tame U f) :
    ∀ g ∈ (if c then [f] else []), Tame U g := by
  split <;> simp [h]

lemma tame_fields (r : Record) : ∀ f ∈ formatFields r, Tame U f := by
  refine forall_mem_append.mpr ⟨forall_mem_append.mpr ⟨forall_mem_append.mpr
    ⟨forall_mem_cons.mpr ⟨tame_of_key (by decide) (by decide +kernel),
      forall_mem_cons.mpr ⟨tame_of_key (by decide) (plain_b64 _), nofun⟩⟩,
      tame_optional (tame_of_key (by decide) (plain_b64 _))⟩,
      tame_optional (tame_of_key (by decide) (plain_hex _))⟩,
      tame_optional (tame_of_key (by decide) (plain_intercalate fun l hl => ?_))⟩
  obtain ⟨w, -, rfl⟩ := mem_map.mp hl
  exact plain_b64 w

lemma parse_formatted (r : Record) :
    ((formatTXT r).splitOn semicolon).foldlM (parsePart U) {} =
      (formatFields r).foldlM (fun rec f => parseField U rec f.1 f.2) {} := by
  obtain ⟨fs, hfs⟩ : ∃ fs, formatFields r = (lit "v", lit "stele/v1") :: fs := ⟨_, rfl⟩
  have htame := tame_fields (U := U) r
  rw [hfs] at htame
  obtain ⟨hf, hrest⟩ := forall_mem_cons.mp htame
  rw [formatTXT, hfs, splitOn_formatted hf hrest, foldlM_cons, foldlM_cons,
    parsePart_eq hf {} (.inl rfl)]
  exact congrArg _ (funext fun rec => parseParts_eq hrest rec)

lemma decodeBase64_b64 (b : Bytes) : decodeBase64 U (b64 b) = .ok b := by
  rw [decodeBase64, trimSpace_plain (plain_b64 b), unb64_b64]

lemma decodeHex_hex (b : Bytes) : decodeHex U (hex b) = .ok b := by
  rw [decodeHex, trimSpace_plain (plain_hex b), unhex_hex]

lemma parseWitnesses_b64 {ws : List Bytes} (h : ∀ w ∈ ws, w ≠ []) (acc : List Bytes) :
    parseWitnesses U acc (ws.map b64) = .ok (acc ++ ws) := by
  induction ws generalizing acc with
  | nil => simp [parseWitnesses]
  | cons w ws ih =>
    obtain ⟨hw, hws⟩ := forall_mem_cons.mp h
    have hne : b64 w ≠ [] := fun hnil => by
      have hlen := b64_length w
      have hpos := length_pos_iff.mpr hw
      rw [hnil, length_nil] at hlen
      omega
    simp only [map_cons, parseWitnesses, trimSpace_plain (plain_b64 w), if_neg hne,
      decodeBase64_b64]
    exact (ih hws _).trans (by simp)

section
variable (rec : Record) (b : Bytes)

@[simp] lemma parseField_v : parseField U rec (lit "v") b = .ok { rec with version := b } := rfl

@[simp] lemma parseField_root :
    parseField U rec (lit "root_pubkey") (b64 b) = .ok { rec with rootPublicKey := b } := by
  simp only [parseField, decodeBase64_b64]
  rfl

@[simp] lemma parseField_qroot :
    parseField U rec (lit "root_qpubkey") (b64 b) = .ok { rec with rootQuantumPublicKey := b } := by
  simp only [parseField, decodeBase64_b64]
  rfl

@[simp] lemma parseField_digest :
    parseField U rec (lit "chain_digest") (hex b) = .ok { rec with chainDigest := b } := by
  simp only [parseField, decodeHex_hex]
  rfl

lemma parseField_witnesses {ws : List Bytes} (hne : ws ≠ []) (h : ∀ w ∈ ws, w ≠ []) :
    parseField U rec (lit "witnesses") ([comma].intercalate (ws.map b64)) =
      .ok { rec with witnesses := rec.witnesses ++ ws } := by
  have hsplit : ([comma].intercalate (ws.map b64)).splitOn comma = ws.map b64 := by
    refine splitOn_intercalate _ (fun l hl => ?_) (by simpa using hne)
    obtain ⟨w, -, rfl⟩ := mem_map.mp hl
    exact comma_notMem_b64 w
  simp only [parseField, hsplit, parseWitnesses_b64 h]
  rfl

end

end

/-- **A formatted record is read back as it was**, with the version of the format, and without the
origin, which is not part of the text. -/
theorem record_round_trip (U : Unicode) (r : Record) (hroot : r.rootPublicKey ≠ [])
    (hws : ∀ w ∈ r.witnesses, w ≠ []) :
    parseTXT U (formatTXT r) = .ok { r with origin := [], version := lit "stele/v1" } := by
  have hfields : (formatFields r).foldlM (fun rec f => parseField U rec f.1 f.2) {} =
      .ok { r with origin := [], version := lit "stele/v1" } := by
    have hwit (rec : Record) (hne : r.witnesses ≠ []) := parseField_witnesses (U := U) rec hne hws
    by_cases hq : r.rootQuantumPublicKey = [] <;> by_cases hd : r.chainDigest = [] <;>
      by_cases hw : r.witnesses = [] <;> simp [formatFields, hq, hd, hw, ok_bind, hwit]
  have hne : formatTXT r ≠ [] := by
    show (lit "; ").intercalate ((118 :: _) :: _) ≠ []
    rw [intercalate_cons_head]
    exact cons_ne_nil _ _
  rw [parseTXT, parse_formatted, hfields, ensure, if_pos hne, ok_bind, ok_bind, ensure,
    if_pos hroot, ok_bind, ensure, if_pos (.inr ⟨lit "1", rfl⟩)]
  rfl

theorem record_round_trip_padded :
    let r : Record :=
      { rootPublicKey := [1, 2], chainDigest := [255], witnesses := [[1], [2, 3, 4]] }
    parseTXT ⟨id, id, id⟩ (formatTXT r) = .ok { r with version := lit "stele/v1" } :=
  record_round_trip _ _ (by decide) (by decide)

end Stele.Trustdns
