import Stele.Anchor.Sinks
import Stele.Lib.JsonScanner

/-!
# The file of a `FileSink`, byte by byte (`pkg/anchor`)

`Publish` appends a line of JSON. A write may stop after any number of bytes, a later step may fail,
and the process may stop in between. `ReadAll` takes the file apart at the line ends.
-/

namespace Stele.Anchor

open Lib List

def scan (s : JsonText.Scanner) : Bytes → Option JsonText.Scanner
  | [] => some s
  | c :: text =>
    match s.step c with
    | none => none
    | some (s, _) => scan s text

def validJson (text : Bytes) : Bool := (scan .start text).any (·.eof)

/-- The JSON text of records: `crossed` is what is read back. -/
structure Codec where
  marshal : Record → Bytes
  decode : Bytes → Except Err Record
  crossed : Record → Record
  object : ∀ r, ∃ rest, marshal r = 0x7B :: rest
  noNewline : ∀ r, NoNewline (marshal r)
  valid : ∀ r, validJson (marshal r) = true
  decode_marshal : ∀ r, decode (marshal r) = .ok (crossed r)

def Codec.unmarshal (K : Codec) (text : Bytes) : Res Record :=
  if validJson text = true then (K.decode text).mapError .err
  else .error (errorf "invalid character" [])

structure PublishEnv where
  openFile : Option Err := none
  seek : Option Err := none
  now : Int := 0
  /-- The write stops after so many bytes: with an error, or the process stops. -/
  write : Option (Nat × Option Err) := none
  /-- A step after the write fails, or the process stops there. -/
  later : Option (Option Err) := none

structure FileLog where
  file : Bytes := []
  returned : List Record := []

section
variable (C : Crypto) (K : Codec) (path : Bytes)

def FileLog.record (s : FileLog) (io : PublishEnv) (c : Checkpoint) : Record :=
  recordOf C (lit "file:" ++ path) (lit "offset=" ++ dec s.file.length) io.now c

def FileLog.publish (s : FileLog) (io : PublishEnv) (c : Option Checkpoint) :
    Bytes × Option (Res Record) :=
  match c with
  | none => (s.file, some (.error (errorf "anchor: refusing to publish unsigned checkpoint" [])))
  | some c =>
    if c.signature = [] then
      (s.file, some (.error (errorf "anchor: refusing to publish unsigned checkpoint" [])))
    else
      match io.openFile.or io.seek with
      | some e => (s.file, some (.error (.err e)))
      | none =>
        let text := line (K.marshal (s.record C path io c))
        match io.write with
        | some (n, e) => (s.file ++ text.take n, e.map fun e => .error (.err e))
        | none =>
          match io.later with
          | some e => (s.file ++ text, e.map fun e => .error (.err e))
          | none => (s.file ++ text, some (.ok (s.record C path io c)))

def FileLog.step (s : FileLog) (call : PublishEnv × Option Checkpoint) : FileLog :=
  let out := s.publish C K path call.1 call.2
  { file := out.1
    returned := s.returned ++ (out.2.bind Except.toOption).toList }

def readFrom (out : List Record) (current : Bytes) : Bytes → Res (List Record)
  | [] =>
    if current = [] then .ok out
    else do
      let r ← wrapErr "anchor: malformed trailing record: %w" [] (K.unmarshal current)
      return out ++ [r]
  | b :: data =>
    if b = newline then
      if current = [] then readFrom out [] data
      else do
        let r ← wrapErr "anchor: malformed record: %w" [] (K.unmarshal current)
        readFrom (out ++ [r]) [] data
    else readFrom out (current ++ [b]) data

def readAll (file : Bytes) : Res (List Record) := readFrom K [] [] file

end

/-! ## Whole lines -/

section
variable {C : Crypto} {K : Codec} {path : Bytes}

lemma unmarshal_marshal (r : Record) : K.unmarshal (K.marshal r) = .ok (K.crossed r) := by
  rw [Codec.unmarshal, if_pos (K.valid r), K.decode_marshal]
  rfl

lemma readFrom_line (out : List Record) (current text data : Bytes) (h : NoNewline text) :
    readFrom K out current (text ++ data) = readFrom K out (current ++ text) data := by
  induction text generalizing current with
  | nil => simp
  | cons b text ih =>
    obtain ⟨hb, htext⟩ := not_or.mp (mt mem_cons.mpr h)
    rw [cons_append, readFrom, if_neg (Ne.symm hb), ih _ htext, append_assoc]
    rfl

def fileOf (K : Codec) (rs : List Record) : Bytes := rs.flatMap fun r => line (K.marshal r)

lemma readFrom_fileOf (out : List Record) (rs : List Record) :
    readFrom K out [] (fileOf K rs) = .ok (out ++ rs.map K.crossed) := by
  induction rs generalizing out with
  | nil => simp [fileOf, readFrom]
  | cons r rs ih =>
    obtain ⟨rest, hobject⟩ := K.object r
    have hne : [] ++ K.marshal r ≠ [] := by simp [hobject]
    show readFrom K out [] (K.marshal r ++ [newline] ++ fileOf K rs) = _
    rw [append_assoc, readFrom_line out [] _ _ (K.noNewline r), singleton_append,
      readFrom, if_pos rfl, if_neg hne, nil_append, unmarshal_marshal]
    exact (ih _).trans (by simp)

def Whole (C : Crypto) (K : Codec) (path : Bytes) (s : FileLog)
    (call : PublishEnv × Option Checkpoint) : Prop :=
  ∀ c n e, call.2 = some c → call.1.write = some (n, e) →
    n = 0 ∨ (line (K.marshal (s.record C path call.1 c))).length ≤ n

def Kept (K : Codec) (s : FileLog) : Prop := ∃ rs, s.file = fileOf K rs ∧ s.returned.Sublist rs

lemma Kept.step {s : FileLog} (h : Kept K s) {call : PublishEnv × Option Checkpoint}
    (hcall : Whole C K path s call) : Kept K (s.step C K path call) := by
  obtain ⟨rs, hfile, hsub⟩ := h
  -- a call that leaves nothing, and one that leaves its line and returned its record or not
  have hsame (res : Option (Res Record)) (hres : res.bind Except.toOption = none) :
      Kept K ⟨s.file, s.returned ++ (res.bind Except.toOption).toList⟩ :=
    ⟨rs, hfile, by simpa [hres] using hsub⟩
  have hmore (r : Record) (res : List Record) (hres : res.Sublist [r]) :
      Kept K ⟨s.file ++ line (K.marshal r), s.returned ++ res⟩ :=
    ⟨rs ++ [r], by simp [fileOf, hfile], hsub.append hres⟩
  have hfailed (e : Option Err) :
      (e.map fun e => (.error (.err e) : Res Record)).bind Except.toOption = none := by
    cases e <;> rfl
  obtain ⟨io, c⟩ := call
  simp only [FileLog.step, FileLog.publish]
  cases c with
  | none => exact hsame _ rfl
  | some c =>
    simp only
    split
    · exact hsame _ rfl
    · split
      · exact hsame _ rfl
      · split
        · rename_i n e hwrite
          rw [hfailed]
          rcases hcall c n e rfl hwrite with rfl | hlen
          · rw [take_zero, append_nil]
            exact hsame none rfl
          · rw [take_of_length_le hlen]
            exact hmore _ [] (nil_sublist _)
        · split
          · rename_i e _
            rw [hfailed]
            exact hmore _ [] (nil_sublist _)
          · exact hmore _ _ (List.Sublist.refl _)

/-- **Published anchors are kept** while every write leaves its whole line or nothing: `ReadAll`
succeeds, and its result has every record that was returned, in order. -/
theorem anchors_kept (C : Crypto) (K : Codec) (path : Bytes)
    (calls : List (PublishEnv × Option Checkpoint))
    (hwhole : Along (FileLog.step C K path) (Whole C K path) {} calls) :
    ∃ read, readAll K (run (FileLog.step C K path) {} calls).file = .ok read ∧
      ((run (FileLog.step C K path) {} calls).returned.map K.crossed).Sublist read := by
  have hinit : Kept K {} := ⟨[], rfl, List.Sublist.refl _⟩
  obtain ⟨rs, hfile, hsub⟩ := along_invariant (I := Kept K) (fun _ _ h hok => h.step hok) hinit
    hwhole
  exact ⟨rs.map K.crossed, by rw [hfile, readAll, readFrom_fileOf, nil_append], hsub.map K.crossed⟩

end

/-! ## Torn lines -/

def signedCheckpoint : Checkpoint :=
  ⟨lit "log", 1, [], [], 0, 0, [], none, [1], [], [], [], []⟩

def emptyCodec : Codec where
  marshal _ := lit "\x7b\x7d"
  decode _ := .ok (recordOf .sample [] [] 0 signedCheckpoint)
  crossed _ := recordOf .sample [] [] 0 signedCheckpoint
  object _ := ⟨[0x7D], by decide⟩
  noNewline _ := by decide
  valid _ := by decide
  decode_marshal _ := rfl

theorem anchors_kept_one :
    let s := run (FileLog.step .sample emptyCodec []) {} [({}, some signedCheckpoint)]
    s.returned.length = 1 ∧ ∃ read, readAll emptyCodec s.file = .ok read ∧
      (s.returned.map emptyCodec.crossed).Sublist read :=
  ⟨rfl, anchors_kept .sample emptyCodec [] [({}, some signedCheckpoint)] ⟨nofun, trivial⟩⟩

lemma unmarshal_torn (K : Codec) (r : Record) :
    ∃ err, K.unmarshal (0x7B :: K.marshal r) = .error (.err err) := by
  obtain ⟨rest, hrest⟩ := K.object r
  have hinvalid : validJson (0x7B :: 0x7B :: rest) = false := rfl
  rw [Codec.unmarshal, hrest, hinvalid]
  exact ⟨_, rfl⟩

def tornCalls : List (PublishEnv × Option Checkpoint) :=
  [({ write := some (1, some (.errorf "no space left on device" [])) }, some signedCheckpoint),
    ({}, some signedCheckpoint)]

/-- **One byte of a line is enough**: the next call returns its record, and no record can be read
any more, whatever the texts of the records are. -/
theorem torn_line_loses_anchors :
    tornCalls.map (fun call => call.1.write.map Prod.fst) = [some 1, none] ∧
    ∀ K : Codec, let s := run (FileLog.step .sample K []) {} tornCalls
      s.returned.length = 1 ∧ ∃ err, readAll K s.file =
        .error (.err (.wrap "anchor: malformed record: %w" [] err)) := by
  refine ⟨rfl, fun K => ?_⟩
  intro s
  refine ⟨rfl, ?_⟩
  have htorn (r : Record) : (line (K.marshal r)).take 1 = [0x7B] := by
    obtain ⟨rest, hrest⟩ := K.object r
    rw [hrest]
    rfl
  obtain ⟨r, r', hlines⟩ : ∃ r r', s.file = (line (K.marshal r)).take 1 ++ line (K.marshal r') :=
    ⟨_, _, rfl⟩
  have hfile : s.file = 0x7B :: K.marshal r' ++ [newline] := by
    rw [hlines, htorn]
    rfl
  obtain ⟨err, herr⟩ := unmarshal_torn K r'
  have hline : NoNewline (0x7B :: K.marshal r') :=
    not_mem_cons_of_ne_of_not_mem (by decide) (K.noNewline r')
  rw [readAll, hfile, readFrom_line [] [] _ _ hline, nil_append, readFrom, if_pos rfl,
    if_neg (cons_ne_nil _ _), herr]
  exact ⟨err, rfl⟩

end Stele.Anchor
