import Mathlib.Algebra.Group.Int.Defs
import Mathlib.Algebra.Group.Nat.Defs
import Mathlib.Data.List.Basic
import Mathlib.Tactic.Common

/-!
# Byte strings and the encodings built from them

Strings and byte slices are lists of octets. The encodings are the ones wire formats are put
together from:
-/

namespace Lib

open List

/-- A byte string. A nil slice and an empty one are the same value. -/
abbrev Bytes := List UInt8

instance : LawfulBEq Bytes := inferInstance

def lit (s : String) : Bytes := s.toList.map fun c => UInt8.ofNat c.toNat

/-! ## Big-endian integers -/

def be : Nat → Nat → Bytes
  | 0, _ => []
  | w + 1, n => be w (n / 256) ++ [UInt8.ofNat n]

@[simp] lemma be_length (w n : Nat) : (be w n).length = w := by
  induction w generalizing n with
  | zero => rfl
  | succ w ih => simp [be, ih]

lemma ofNat_inj {a b : Nat} (h : UInt8.ofNat a = UInt8.ofNat b) : a % 256 = b % 256 := by
  have h' := congrArg UInt8.toNat h
  simpa using h'

variable {w : Nat}

/-- Equal encodings come from numbers that agree modulo `256 ^ w`. -/
lemma be_inj_mod {a b : Nat} (h : be w a = be w b) : a % 256 ^ w = b % 256 ^ w := by
  induction w generalizing a b with
  | zero => simp [Nat.mod_one]
  | succ w ih =>
    obtain ⟨hhi, hlo⟩ := append_inj h (by simp)
    have hlo' := ofNat_inj (List.cons.inj hlo).1
    rw [Nat.pow_succ', Nat.mod_mul, Nat.mod_mul, ih hhi, hlo']

lemma be_inj {a b : Nat} (ha : a < 256 ^ w) (hb : b < 256 ^ w) (h : be w a = be w b) : a = b := by
  have := be_inj_mod h
  rwa [Nat.mod_eq_of_lt ha, Nat.mod_eq_of_lt hb] at this

variable {x y : Bytes}

lemma be_append_inj {a b : Nat} (ha : a < 256 ^ w) (hb : b < 256 ^ w)
    (h : be w a ++ x = be w b ++ y) : a = b ∧ x = y := by
  obtain ⟨hint, hrest⟩ := append_inj h (by simp)
  exact ⟨be_inj ha hb hint, hrest⟩

/-- Two's complement: the value Go's `uint64(i)` has for an `int64`. -/
def u64 (i : Int) : Nat := (i % 2 ^ 64).toNat

def IsInt64 (i : Int) : Prop := -2 ^ 63 ≤ i ∧ i < 2 ^ 63

instance (i : Int) : Decidable (IsInt64 i) := inferInstanceAs (Decidable (_ ∧ _))

lemma u64_lt (i : Int) : u64 i < 256 ^ 8 := by
  unfold u64
  omega

lemma u64_inj {i j : Int} (hi : IsInt64 i) (hj : IsInt64 j) (h : u64 i = u64 j) : i = j := by
  unfold u64 at h
  unfold IsInt64 at hi hj
  omega

/-! ## Length-prefixed fields -/

def put (b : Bytes) : Bytes := be 4 b.length ++ b

variable {a b : Bytes}

/-- A field shorter than `2 ^ 32` is read off the front of a message in one way. -/
lemma put_append_inj (ha : a.length < 2 ^ 32) (hb : b.length < 2 ^ 32)
    (h : put a ++ x = put b ++ y) : a = b ∧ x = y := by
  simp only [put, append_assoc] at h
  obtain ⟨hlen, hrest⟩ := be_append_inj (by simpa using ha) (by simpa using hb) h
  exact append_inj hrest hlen

/-! ## Hexadecimal -/

def hexDigit (d : Nat) : UInt8 := UInt8.ofNat (if d < 10 then 48 + d else 87 + d)

def hex (b : Bytes) : Bytes :=
  b.flatMap fun c => [hexDigit (c.toNat / 16), hexDigit (c.toNat % 16)]

@[simp] lemma hex_nil : hex [] = [] := rfl

@[simp] lemma hex_cons (c : UInt8) (b : Bytes) :
    hex (c :: b) = hexDigit (c.toNat / 16) :: hexDigit (c.toNat % 16) :: hex b := rfl

lemma hex_length (b : Bytes) : (hex b).length = 2 * b.length := by
  induction b with
  | nil => rfl
  | cons c b ih =>
    rw [hex_cons, length_cons, length_cons, length_cons, ih]
    omega

lemma hexDigit_toNat {d : Nat} (h : d < 16) :
    (hexDigit d).toNat = if d < 10 then 48 + d else 87 + d := by
  unfold hexDigit
  split <;> simp <;> omega

lemma hexDigit_inj {a b : Nat} (ha : a < 16) (hb : b < 16) (h : hexDigit a = hexDigit b) :
    a = b := by
  have h' := congrArg UInt8.toNat h
  rw [hexDigit_toNat ha, hexDigit_toNat hb] at h'
  split at h' <;> split at h' <;> omega

lemma hex_inj (h : hex a = hex b) : a = b := by
  induction a generalizing b with
  | nil =>
    cases b with
    | nil => rfl
    | cons => simp at h
  | cons c a ih =>
    cases b with
    | nil => simp at h
    | cons d =>
      simp only [hex_cons, List.cons.injEq] at h
      obtain ⟨hhi, hlo, hrest⟩ := h
      have hc := c.toNat_lt
      have hd := d.toNat_lt
      have h1 := hexDigit_inj (by omega) (by omega) hhi
      have h2 := hexDigit_inj (by omega) (by omega) hlo
      rw [ih hrest, UInt8.toNat_inj.mp (show c.toNat = d.toNat by omega)]

/-! ## Decimal -/

def dec (n : Nat) : Bytes := (Nat.toDigits 10 n).map fun c => UInt8.ofNat c.toNat

def decInt : Int → Bytes
  | .ofNat n => dec n
  | .negSucc n => 45 :: dec (n + 1)

variable {n : Nat}

/-- The octet of a decimal digit: it fixes the digit, and it is neither `-` nor a newline. -/
private lemma digit_toNat {c : Char} (h : c ∈ Nat.toDigits 10 n) :
    (UInt8.ofNat c.toNat).toNat = c.toNat ∧ 48 ≤ c.toNat ∧ c.toNat ≤ 57 := by
  have hd := Nat.isDigit_of_mem_toDigits (by omega) (by omega) h
  simp only [Char.isDigit, Bool.and_eq_true, decide_eq_true_eq] at hd
  have h1 : 48 ≤ c.toNat := hd.1
  have h2 : c.toNat ≤ 57 := hd.2
  refine ⟨?_, h1, h2⟩
  simp only [UInt8.toNat_ofNat']
  omega

private lemma map_digit_inj {m : Nat} {as bs : List Char} (ha : ∀ c ∈ as, c ∈ Nat.toDigits 10 m)
    (hb : ∀ c ∈ bs, c ∈ Nat.toDigits 10 n)
    (h : (as.map fun c => UInt8.ofNat c.toNat) = bs.map fun c => UInt8.ofNat c.toNat) :
    as = bs := by
  induction as generalizing bs with
  | nil => simpa using h.symm
  | cons c as ih =>
    cases bs with
    | nil => simp at h
    | cons d =>
      simp only [map_cons, List.cons.injEq] at h
      have hc := digit_toNat (ha c (by simp))
      have hd := digit_toNat (hb d (by simp))
      have hcd : c.toNat = d.toNat := by rw [← hc.1, ← hd.1, h.1]
      rw [Char.toNat_inj.mp hcd,
        ih (fun x hx => ha x (by simp [hx])) (fun x hx => hb x (by simp [hx])) h.2]

lemma dec_inj {m : Nat} (h : dec m = dec n) : m = n := by
  have hd : Nat.toDigits 10 m = Nat.toDigits 10 n :=
    map_digit_inj (fun _ hc => hc) (fun _ hc => hc) h
  have := congrArg (Nat.ofDigitChars 10 · 0) hd
  simpa using this

lemma dec_range {c : UInt8} (h : c ∈ dec n) : 48 ≤ c.toNat ∧ c.toNat ≤ 57 := by
  obtain ⟨d, hd, rfl⟩ := mem_map.mp h
  obtain ⟨he, hlo, hhi⟩ := digit_toNat hd
  omega

lemma decInt_inj {i j : Int} (h : decInt i = decInt j) : i = j := by
  -- A leading `-` tells the two signs apart: it is not a digit.
  have minus {m n : Nat} (h : dec m = 45 :: dec n) : False := by
    have := dec_range (n := m) (c := 45) (by rw [h]; simp)
    simp at this
  cases i with
  | ofNat =>
    cases j with
    | ofNat => rw [dec_inj h]
    | negSucc => exact (minus h).elim
  | negSucc m =>
    cases j with
    | ofNat => exact (minus h.symm).elim
    | negSucc n =>
      have := dec_inj (List.cons.inj h).2
      rw [show m = n by omega]

/-! ## Lines -/

def newline : UInt8 := 10

def NoNewline (b : Bytes) : Prop := newline ∉ b

instance (b : Bytes) : Decidable (NoNewline b) := inferInstanceAs (Decidable (newline ∉ b))

def line (b : Bytes) : Bytes := b ++ [newline]

/-- **A separator splits a list in one way**, when both parts before it have it as often. -/
theorem split_inj {α : Type} [DecidableEq α] {c : α} {a b x y : List α}
    (hcount : a.count c = b.count c) (h : a ++ c :: x = b ++ c :: y) : a = b ∧ x = y := by
  induction a generalizing b with
  | nil =>
    cases b with
    | nil => exact ⟨rfl, (List.cons.inj h).2⟩
    | cons =>
      rw [← (List.cons.inj h).1, count_cons_self, count_nil] at hcount
      cases hcount
  | cons e a ih =>
    cases b with
    | nil =>
      rw [(List.cons.inj h).1, count_cons_self, count_nil] at hcount
      cases hcount
    | cons =>
      obtain ⟨rfl, htail⟩ := List.cons.inj h
      rw [count_cons, count_cons, Nat.add_right_cancel_iff] at hcount
      obtain ⟨rfl, hxy⟩ := ih hcount htail
      exact ⟨rfl, hxy⟩

def breaks (b : Bytes) : Nat := b.count newline

@[simp] lemma breaks_append (a b : Bytes) : breaks (a ++ b) = breaks a + breaks b := count_append

lemma breaks_eq_zero : breaks b = 0 ↔ NoNewline b := count_eq_zero

/-- Texts are read off the front of a message in one way when they break into as many lines. -/
lemma line_append_inj_of_breaks (hbreaks : breaks a = breaks b) (h : line a ++ x = line b ++ y) :
    a = b ∧ x = y := by
  simp only [line, append_assoc, singleton_append] at h
  exact split_inj hbreaks h

lemma line_append_inj (ha : NoNewline a) (hb : NoNewline b) (h : line a ++ x = line b ++ y) :
    a = b ∧ x = y :=
  line_append_inj_of_breaks ((breaks_eq_zero.mpr ha).trans (breaks_eq_zero.mpr hb).symm) h

lemma noNewline_append (ha : NoNewline a) (hb : NoNewline b) : NoNewline (a ++ b) := by
  rw [← breaks_eq_zero, breaks_append, breaks_eq_zero.mpr ha, breaks_eq_zero.mpr hb]

lemma append_ne_append {i : Nat} (ha : i < a.length) (hb : i < b.length) (h : a[i]? ≠ b[i]?) :
    a ++ x ≠ b ++ y := by
  intro heq
  apply h
  calc a[i]? = (a ++ x)[i]? := (getElem?_append_left ha).symm
    _ = (b ++ y)[i]? := by rw [heq]
    _ = b[i]? := getElem?_append_left hb

lemma hex_range {c : UInt8} (h : c ∈ hex b) : 48 ≤ c.toNat ∧ c.toNat ≤ 102 := by
  have digit {d : Nat} (hd : d < 16) : 48 ≤ (hexDigit d).toNat ∧ (hexDigit d).toNat ≤ 102 := by
    rw [hexDigit_toNat hd]
    split <;> omega
  induction b with
  | nil => simp at h
  | cons a b ih =>
    have ha := a.toNat_lt
    simp only [hex_cons, mem_cons] at h
    rcases h with rfl | rfl | h
    · exact digit (by omega)
    · exact digit (by omega)
    · exact ih h

lemma hex_noNewline (b : Bytes) : NoNewline (hex b) := fun h => by
  have := hex_range h
  simp [newline] at this

lemma dec_noNewline (n : Nat) : NoNewline (dec n) := fun h => by
  have := dec_range h
  simp [newline] at this

lemma decInt_noNewline (i : Int) : NoNewline (decInt i) := by
  cases i with
  | ofNat n => exact dec_noNewline n
  | negSucc =>
    intro h
    rcases mem_cons.mp h with h | h
    · exact absurd h (by decide)
    · exact dec_noNewline _ h

end Lib
