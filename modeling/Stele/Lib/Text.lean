import Stele.Lib.Bytes

/-!
# UTF-8 and base64

Two text layers of an encoder that writes byte strings as JSON:
-/

namespace Lib

open List

/-! ## UTF-8 -/

private def contIn (lo hi : UInt8) (b : UInt8) : Bool := lo ≤ b && b ≤ hi

/-- The length of the well-formed UTF-8 sequence at the front of a string, `0` when there is
none. -/
def runeLen : Bytes → Nat
  | [] => 0
  | a :: rest =>
    if a < 0x80 then 1
    else if 0xC2 ≤ a && a ≤ 0xDF then
      match rest with
      | b :: _ => if contIn 0x80 0xBF b then 2 else 0
      | _ => 0
    else if 0xE0 ≤ a && a ≤ 0xEF then
      -- `E0` may not start an overlong form, `ED` may not start a surrogate.
      let lo := if a = 0xE0 then 0xA0 else 0x80
      let hi := if a = 0xED then 0x9F else 0xBF
      match rest with
      | b :: c :: _ => if contIn lo hi b && contIn 0x80 0xBF c then 3 else 0
      | _ => 0
    else if 0xF0 ≤ a && a ≤ 0xF4 then
      -- `F0` may not start an overlong form, `F4` may not pass U+10FFFF.
      let lo := if a = 0xF0 then 0x90 else 0x80
      let hi := if a = 0xF4 then 0x8F else 0xBF
      match rest with
      | b :: c :: d :: _ =>
        if contIn lo hi b && contIn 0x80 0xBF c && contIn 0x80 0xBF d then 4 else 0
      | _ => 0
    else 0

def replacement : Bytes := [0xEF, 0xBF, 0xBD]

def coerceFrom : Nat → Bytes → Bytes
  | _, [] => []
  | k + 1, a :: rest => a :: coerceFrom k rest
  | 0, a :: rest =>
    match runeLen (a :: rest) with
    | 0 => replacement ++ coerceFrom 0 rest
    | n + 1 => a :: coerceFrom n rest

def coerce (s : Bytes) : Bytes := coerceFrom 0 s

def utf8From : Nat → Bytes → Bool
  | _, [] => true
  | k + 1, _ :: rest => utf8From k rest
  | 0, a :: rest =>
    match runeLen (a :: rest) with
    | 0 => false
    | n + 1 => utf8From n rest

def Utf8 (s : Bytes) : Prop := utf8From 0 s = true

instance (s : Bytes) : Decidable (Utf8 s) := inferInstanceAs (Decidable (_ = _))

variable {s : Bytes}

lemma coerceFrom_of_utf8From {k : Nat} (h : utf8From k s = true) : coerceFrom k s = s := by
  induction s generalizing k with
  | nil => cases k <;> rfl
  | cons a rest ih =>
    cases k with
    | succ => rw [coerceFrom, ih h]
    | zero =>
      simp only [utf8From] at h
      simp only [coerceFrom]
      split at h
      · exact absurd h (by simp)
      · rw [ih h]

lemma coerce_of_utf8 (h : Utf8 s) : coerce s = s := coerceFrom_of_utf8From h

lemma runeLen_append (h : runeLen s ≠ 0) (t : Bytes) : runeLen (s ++ t) = runeLen s := by
  cases s with
  | nil => exact absurd rfl h
  | cons a s =>
    rw [cons_append]
    unfold runeLen at h ⊢
    dsimp only at h ⊢
    by_cases h1 : a < 0x80
    · rw [if_pos h1, if_pos h1]
    rw [if_neg h1] at h
    rw [if_neg h1, if_neg h1]
    -- one case for each length of a sequence; a shorter string has no sequence at its front
    by_cases h2 : (0xC2 ≤ a && a ≤ 0xDF) = true
    · rw [if_pos h2] at h
      rw [if_pos h2, if_pos h2]
      rcases s with _ | ⟨b, s⟩
      · exact absurd rfl h
      · rfl
    rw [if_neg h2] at h
    rw [if_neg h2, if_neg h2]
    by_cases h3 : (0xE0 ≤ a && a ≤ 0xEF) = true
    · rw [if_pos h3] at h
      rw [if_pos h3, if_pos h3]
      rcases s with _ | ⟨b, _ | ⟨c, s⟩⟩
      · exact absurd rfl h
      · exact absurd rfl h
      · rfl
    rw [if_neg h3] at h
    rw [if_neg h3, if_neg h3]
    by_cases h4 : (0xF0 ≤ a && a ≤ 0xF4) = true
    · rw [if_pos h4] at h
      rw [if_pos h4, if_pos h4]
      rcases s with _ | ⟨b, _ | ⟨c, _ | ⟨d, s⟩⟩⟩
      · exact absurd rfl h
      · exact absurd rfl h
      · exact absurd rfl h
      · rfl
    · rw [if_neg h4] at h
      exact absurd rfl h

lemma runeLen_le (s : Bytes) : runeLen s ≤ s.length := by
  rcases s with _ | ⟨a, _ | ⟨b, _ | ⟨c, _ | ⟨d, s⟩⟩⟩⟩
  · simp [runeLen]
  all_goals
    simp only [runeLen, List.length_cons]
    repeat' split
    all_goals omega

variable {a : UInt8} {n : Nat}

lemma runeLen_rest {rest : Bytes} (h : runeLen (a :: rest) = n + 1) (ha : 0x80 ≤ a) :
    n ≤ rest.length ∧ (a = 0xE2 → n = 2) ∧ ∀ x ∈ rest.take n, 0x80 ≤ x ∧ x ≤ 0xBF := by
  have hle := runeLen_le (a :: rest)
  rw [h, List.length_cons] at hle
  refine ⟨by omega, ?_⟩
  rcases rest with _ | ⟨b, _ | ⟨c, _ | ⟨d, rest⟩⟩⟩ <;> simp only [runeLen, contIn] at h
  · grind
  · grind
  · grind
  · -- one case for each length
    have h2 : a ≤ 0xDF → n = 1 ∧ 0x80 ≤ b ∧ b ≤ 0xBF := by grind
    have h3 : 0xDF < a → a ≤ 0xEF → n = 2 ∧ 0x80 ≤ b ∧ b ≤ 0xBF ∧ 0x80 ≤ c ∧ c ≤ 0xBF := by grind
    have h4 : 0xEF < a → n = 3 ∧ 0x80 ≤ b ∧ b ≤ 0xBF ∧ 0x80 ≤ c ∧ c ≤ 0xBF ∧ 0x80 ≤ d ∧
        d ≤ 0xBF := by
      grind
    clear h
    by_cases hle2 : a ≤ 0xDF
    · obtain ⟨rfl, hb⟩ := h2 hle2
      simp only [take_succ_cons, take_zero, mem_cons, not_mem_nil]
      grind
    · by_cases hle3 : a ≤ 0xEF
      · obtain ⟨rfl, hbc⟩ := h3 (UInt8.not_le.mp hle2) hle3
        simp only [take_succ_cons, take_zero, mem_cons, not_mem_nil]
        grind
      · obtain ⟨rfl, hbcd⟩ := h4 (UInt8.not_le.mp hle3)
        simp only [take_succ_cons, take_zero, mem_cons, not_mem_nil]
        grind

lemma utf8From_drop {k : Nat} (h : k ≤ s.length) : utf8From k s = utf8From 0 (s.drop k) := by
  induction k generalizing s with
  | zero => rfl
  | succ k ih =>
    cases s with
    | nil => simp at h
    | cons => exact ih (by simpa using h)

lemma utf8_append {t : Bytes} (hs : Utf8 s) (ht : Utf8 t) : Utf8 (s ++ t) := by
  induction hn : s.length using Nat.strongRecOn generalizing s with
  | ind n ih =>
    cases s with
    | nil => exact ht
    | cons a s =>
      unfold Utf8 at hs ⊢
      simp only [cons_append, utf8From] at hs ⊢
      have hle := runeLen_le (a :: s)
      cases hrune : runeLen (a :: s) with
      | zero => simp [hrune] at hs
      | succ m =>
        have happ := runeLen_append (s := a :: s) (by omega) t
        rw [cons_append, hrune] at happ
        rw [hrune] at hs hle
        simp only [List.length_cons] at hle hn
        simp only [happ]
        simp only at hs
        rw [utf8From_drop (by omega)] at hs
        rw [utf8From_drop (by simp; omega), drop_append_of_le_length (by omega)]
        exact ih (s.drop m).length (by simp; omega) hs rfl

lemma runeLen_take {rest : Bytes} (h : runeLen (a :: rest) = n + 1) :
    runeLen (a :: rest.take n) = n + 1 := by
  have hle := runeLen_le (a :: rest)
  rcases rest with _ | ⟨b, _ | ⟨c, _ | ⟨d, rest⟩⟩⟩
  · simpa using h
  all_goals
    rcases n with _ | _ | _ | _ | n <;>
      simp only [runeLen, take_succ_cons, take_zero, take_nil] at h ⊢ <;> grind

lemma coerceFrom_take (h : n ≤ s.length) : coerceFrom n s = s.take n ++ coerce (s.drop n) := by
  induction n generalizing s with
  | zero => rfl
  | succ n ih =>
    cases s with
    | nil => simp at h
    | cons => rw [coerceFrom, ih (by simpa using h)]; rfl

lemma utf8_coerce (s : Bytes) : Utf8 (coerce s) := by
  induction hn : s.length using Nat.strongRecOn generalizing s with
  | ind n ih =>
    cases s with
    | nil => rfl
    | cons a s =>
      rw [List.length_cons] at hn
      rw [coerce, coerceFrom]
      cases hrune : runeLen (a :: s) with
      | zero => exact utf8_append (by decide) (ih s.length (by omega) s rfl)
      | succ m =>
        have hle := runeLen_le (a :: s)
        rw [hrune, List.length_cons] at hle
        have hfront : Utf8 (a :: s.take m) := by
          unfold Utf8
          rw [utf8From, runeLen_take hrune]
          show utf8From m (s.take m) = true
          rw [utf8From_drop (by rw [length_take]; omega), drop_eq_nil_of_le (length_take_le m s)]
          rfl
        show Utf8 (a :: coerceFrom m s)
        rw [coerceFrom_take (by omega), ← cons_append]
        have hless : (s.drop m).length < n := by
          rw [length_drop]
          omega
        exact utf8_append hfront (ih (s.drop m).length hless (s.drop m) rfl)

lemma utf8_of_ascii (h : ∀ c ∈ s, c < 0x80) : Utf8 s := by
  induction s with
  | nil => rfl
  | cons a s ih =>
    have ha : runeLen (a :: s) = 1 := by
      unfold runeLen
      exact if_pos (h a (by simp))
    unfold Utf8
    rw [utf8From, ha]
    exact ih fun c hc => h c (by simp [hc])

lemma utf8_hex (b : Bytes) : Utf8 (hex b) := by
  apply utf8_of_ascii
  intro c hc
  have hrange := hex_range hc
  exact UInt8.lt_iff_toNat_lt.mpr (Nat.lt_of_le_of_lt hrange.2 (by decide))

lemma utf8_dec (n : Nat) : Utf8 (dec n) := by
  apply utf8_of_ascii
  intro c hc
  have hrange := dec_range hc
  exact UInt8.lt_iff_toNat_lt.mpr (Nat.lt_of_le_of_lt hrange.2 (by decide))

lemma utf8_decInt (i : Int) : Utf8 (decInt i) := by
  cases i with
  | ofNat n => exact utf8_dec n
  | negSucc n => exact utf8_append (s := [45]) (by decide) (utf8_dec (n + 1))

/-! ## Base64 -/

def b64Char (v : Nat) : UInt8 :=
  UInt8.ofNat <|
    if v < 26 then 65 + v
    else if v < 52 then 71 + v
    else if v < 62 then v - 4
    else if v = 62 then 43
    else 47

def b64Val (c : UInt8) : Option Nat :=
  let n := c.toNat
  if 65 ≤ n ∧ n ≤ 90 then some (n - 65)
  else if 97 ≤ n ∧ n ≤ 122 then some (n - 71)
  else if 48 ≤ n ∧ n ≤ 57 then some (n + 4)
  else if n = 43 then some 62
  else if n = 47 then some 63
  else none

def b64Pad : UInt8 := 61

def b64 : Bytes → Bytes
  | a :: b :: c :: rest =>
    let n := a.toNat * 65536 + b.toNat * 256 + c.toNat
    b64Char (n / 262144) :: b64Char (n / 4096 % 64) :: b64Char (n / 64 % 64) ::
      b64Char (n % 64) :: b64 rest
  | [a, b] =>
    let n := a.toNat * 256 + b.toNat
    [b64Char (n / 1024), b64Char (n / 16 % 64), b64Char (n * 4 % 64), b64Pad]
  | [a] => [b64Char (a.toNat / 4), b64Char (a.toNat * 16 % 64), b64Pad, b64Pad]
  | [] => []

/-- Decode quantum by quantum; only the last may be padded. The unused bits of a padded quantum
are not checked. -/
def unb64Quanta : Bytes → Option Bytes
  | [] => some []
  | w :: x :: y :: z :: rest =>
    if y = b64Pad then
      if z = b64Pad ∧ rest = [] then do
        let w ← b64Val w
        let x ← b64Val x
        return [UInt8.ofNat (w * 4 + x / 16)]
      else none
    else if z = b64Pad then
      if rest = [] then do
        let w ← b64Val w
        let x ← b64Val x
        let y ← b64Val y
        return [UInt8.ofNat (w * 4 + x / 16), UInt8.ofNat (x * 16 + y / 4)]
      else none
    else do
      let w ← b64Val w
      let x ← b64Val x
      let y ← b64Val y
      let z ← b64Val z
      let tail ← unb64Quanta rest
      return UInt8.ofNat (w * 4 + x / 16) :: UInt8.ofNat (x * 16 + y / 4) ::
        UInt8.ofNat (y * 64 + z) :: tail
  | _ => none

/-- Decode padded standard base64; line ends in the text are skipped. -/
def unb64 (s : Bytes) : Option Bytes := unb64Quanta (s.filter fun c => c ≠ 10 ∧ c ≠ 13)

/-- A character of the alphabet reads back, and it is neither padding nor a line end. -/
private lemma b64Char_spec {v : Nat} (h : v < 64) :
    b64Val (b64Char v) = some v ∧ b64Char v ≠ b64Pad ∧ b64Char v ≠ 10 ∧ b64Char v ≠ 13 := by
  have all : ∀ v : Fin 64, b64Val (b64Char v) = some v.val ∧ b64Char v ≠ b64Pad ∧
      b64Char v ≠ 10 ∧ b64Char v ≠ 13 := by decide
  exact all ⟨v, h⟩

private lemma ofNat_eq (h : n % 256 = a.toNat) : UInt8.ofNat n = a := by
  apply UInt8.toNat_inj.mp
  simpa using h

lemma unb64Quanta_b64 (s : Bytes) : unb64Quanta (b64 s) = some s := by
  induction s using b64.induct with
  | case1 a b c rest ih =>
    have ha := a.toNat_lt
    have hb := b.toNat_lt
    have hc := c.toNat_lt
    simp only [b64, unb64Quanta]
    generalize hn : a.toNat * 65536 + b.toNat * 256 + c.toNat = n
    obtain ⟨h1, -, -⟩ := b64Char_spec (v := n / 262144) (by omega)
    obtain ⟨h2, -, -⟩ := b64Char_spec (v := n / 4096 % 64) (by omega)
    obtain ⟨h3, p3, -⟩ := b64Char_spec (v := n / 64 % 64) (by omega)
    obtain ⟨h4, p4, -⟩ := b64Char_spec (v := n % 64) (by omega)
    rw [if_neg p3, if_neg p4, h1, h2, h3, h4, ih]
    simp only [Option.pure_def, Option.bind_eq_bind, Option.bind_some, Option.some.injEq,
      List.cons.injEq, and_true]
    exact ⟨ofNat_eq (by omega), ofNat_eq (by omega), ofNat_eq (by omega)⟩
  | case2 a b =>
    have ha := a.toNat_lt
    have hb := b.toNat_lt
    simp only [b64, unb64Quanta]
    generalize hn : a.toNat * 256 + b.toNat = n
    obtain ⟨h1, -, -⟩ := b64Char_spec (v := n / 1024) (by omega)
    obtain ⟨h2, -, -⟩ := b64Char_spec (v := n / 16 % 64) (by omega)
    obtain ⟨h3, p3, -⟩ := b64Char_spec (v := n * 4 % 64) (by omega)
    rw [if_neg p3, h1, h2, h3]
    simp only [↓reduceIte, Option.pure_def, Option.bind_eq_bind, Option.bind_some,
      Option.some.injEq, List.cons.injEq, and_true]
    exact ⟨ofNat_eq (by omega), ofNat_eq (by omega)⟩
  | case3 a =>
    have ha := a.toNat_lt
    obtain ⟨h1, -, -⟩ := b64Char_spec (v := a.toNat / 4) (by omega)
    obtain ⟨h2, -, -⟩ := b64Char_spec (v := a.toNat * 16 % 64) (by omega)
    simp only [b64, unb64Quanta]
    rw [h1, h2]
    simp only [and_self, ↓reduceIte, Option.pure_def, Option.bind_eq_bind, Option.bind_some,
      Option.some.injEq, List.cons.injEq, and_true]
    exact ofNat_eq (by omega)
  | case4 => rfl

lemma b64_forall {P : UInt8 → Prop} (hchar : ∀ v, v < 64 → P (b64Char v)) (hpad : P b64Pad)
    (s : Bytes) : ∀ c ∈ b64 s, P c := by
  induction s using b64.induct with
  | case1 a b c rest ih =>
    have ha := a.toNat_lt
    have hb := b.toNat_lt
    have hc := c.toNat_lt
    intro d hd
    simp only [b64, mem_cons] at hd
    rcases hd with rfl | rfl | rfl | rfl | hd
    · exact hchar _ (by omega)
    · exact hchar _ (by omega)
    · exact hchar _ (by omega)
    · exact hchar _ (by omega)
    · exact ih d hd
  | case2 a b =>
    have ha := a.toNat_lt
    have hb := b.toNat_lt
    intro d hd
    simp only [b64, mem_cons, not_mem_nil, or_false] at hd
    rcases hd with rfl | rfl | rfl | rfl
    · exact hchar _ (by omega)
    · exact hchar _ (by omega)
    · exact hchar _ (by omega)
    · exact hpad
  | case3 a =>
    have ha := a.toNat_lt
    intro d hd
    simp only [b64, mem_cons, not_mem_nil, or_false] at hd
    rcases hd with rfl | rfl | rfl | rfl
    · exact hchar _ (by omega)
    · exact hchar _ (by omega)
    · exact hpad
    · exact hpad
  | case4 => simp [b64]

lemma b64_noLineEnd (s : Bytes) : ∀ c ∈ b64 s, c ≠ 10 ∧ c ≠ 13 :=
  b64_forall (fun _ h => (b64Char_spec h).2.2) (by decide) s

lemma b64_length (s : Bytes) : (b64 s).length = (s.length + 2) / 3 * 4 := by
  induction s using b64.induct with
  | case1 a b c rest ih =>
    simp only [b64, List.length_cons, ih]
    omega
  | case2 => simp [b64]
  | case3 => simp [b64]
  | case4 => simp [b64]

lemma unb64Quanta_length : ∀ {s t : Bytes}, unb64Quanta s = some t →
    t.length ≤ s.length / 4 * 3
  | [], t, h => by
    cases h
    simp
  | [_], _, h => by cases h
  | [_, _], _, h => by cases h
  | [_, _, _], _, h => by cases h
  | w :: x :: y :: z :: rest, t, h => by
    have hlen : (w :: x :: y :: z :: rest).length / 4 = rest.length / 4 + 1 := by
      simp only [List.length_cons]
      omega
    rw [hlen]
    unfold unb64Quanta at h
    split at h
    · split at h
      · simp only [Option.bind_eq_bind, Option.bind_eq_some_iff, Option.pure_def,
          Option.some.injEq] at h
        obtain ⟨_, -, _, -, rfl⟩ := h
        simp only [List.length_cons, List.length_nil]
        omega
      · cases h
    · split at h
      · split at h
        · simp only [Option.bind_eq_bind, Option.bind_eq_some_iff, Option.pure_def,
            Option.some.injEq] at h
          obtain ⟨_, -, _, -, _, -, rfl⟩ := h
          simp only [List.length_cons, List.length_nil]
          omega
        · cases h
      · simp only [Option.bind_eq_bind, Option.bind_eq_some_iff, Option.pure_def,
          Option.some.injEq] at h
        obtain ⟨_, -, _, -, _, -, _, -, tail, htail, rfl⟩ := h
        have := unb64Quanta_length htail
        simp only [List.length_cons]
        omega

lemma unb64_b64 (s : Bytes) : unb64 (b64 s) = some s := by
  have hf : ((b64 s).filter fun c => c ≠ 10 ∧ c ≠ 13) = b64 s :=
    filter_eq_self.mpr fun c hc => by simpa using b64_noLineEnd s c hc
  rw [unb64, hf, unb64Quanta_b64]

end Lib
