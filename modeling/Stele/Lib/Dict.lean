import Mathlib.Data.List.AList
import Stele.Lib.Text

/-!
# Dictionaries, nested dictionaries and their JSON files
-/

namespace Lib

open List Option AList

abbrev Dict (α β : Type) := AList fun _ : α => β

namespace Dict

variable {α β γ : Type} [DecidableEq α] [DecidableEq β]

/-! ## Dictionaries of dictionaries -/

def get2 (m : Dict α (Dict β γ)) (a : α) (b : β) : Option γ := (m.lookup a).bind (·.lookup b)

def put2 (m : Dict α (Dict β γ)) (a : α) (b : β) (v : γ) : Dict α (Dict β γ) :=
  m.insert a (((m.lookup a).getD ∅).insert b v)

lemma get2_put2_self (m : Dict α (Dict β γ)) (a : α) (b : β) (v : γ) :
    get2 (put2 m a b v) a b = some v := by
  simp [get2, put2]

variable {a : α} {b : β}

lemma get2_put2_ne (m : Dict α (Dict β γ)) {a' : α} {b' : β} (v : γ) (h : ¬ (a' = a ∧ b' = b)) :
    get2 (put2 m a b v) a' b' = get2 m a' b' := by
  unfold get2 put2
  by_cases ha : a' = a
  · subst ha
    have hb : b' ≠ b := fun hb => h ⟨rfl, hb⟩
    rw [lookup_insert, bind_some, lookup_insert_ne hb]
    cases m.lookup a' <;> simp
  · rw [lookup_insert_ne ha]

variable {m : Dict α (Dict β γ)}

lemma get2_put2_cases {a' : α} {b' : β} {v w : γ} (h : get2 (put2 m a b v) a' b' = some w) :
    (a' = a ∧ b' = b ∧ w = v) ∨ get2 m a' b' = some w := by
  by_cases heq : a' = a ∧ b' = b
  · obtain ⟨rfl, rfl⟩ := heq
    rw [get2_put2_self, Option.some.injEq] at h
    exact .inl ⟨rfl, rfl, h.symm⟩
  · rw [get2_put2_ne m v heq] at h
    exact .inr h

def Sub (m m' : Dict α (Dict β γ)) : Prop :=
  ∀ ⦃a b v⦄, get2 m a b = some v → get2 m' a b = some v

lemma Sub.refl (m : Dict α (Dict β γ)) : Sub m m := fun _ _ _ h => h

lemma Sub.trans {m' m'' : Dict α (Dict β γ)} (h : Sub m m') (h' : Sub m' m'') : Sub m m'' :=
  fun _ _ _ hv => h' (h hv)

lemma sub_put2 {v : γ} (h : ∀ v', get2 m a b = some v' → v' = v) : Sub m (put2 m a b v) := by
  intro a' b' v' hv'
  by_cases hab : a' = a ∧ b' = b
  · obtain ⟨rfl, rfl⟩ := hab
    rw [get2_put2_self, h v' hv']
  · rw [get2_put2_ne m v hab, hv']

def mapValues {δ : Type} (f : γ → δ) (m : Dict α γ) : Dict α δ :=
  (m.entries.map (Sigma.map id fun _ => f)).toAList

lemma lookup_mapValues {δ : Type} (f : γ → δ) (m : Dict α γ) (a : α) :
    (mapValues f m).lookup a = (m.lookup a).map f := by
  rw [mapValues, lookup_to_alist, dlookup_map₂]
  rfl

lemma dedupKeys_eq_self {l : List (Sigma fun _ : α => γ)} (h : l.NodupKeys) :
    l.dedupKeys = l := by
  induction l with
  | nil => rfl
  | cons e l ih =>
    obtain ⟨hnot, hl⟩ := nodupKeys_cons.mp h
    rw [dedupKeys_cons, ih hl, List.kinsert, kerase_of_notMem_keys hnot]

lemma mapValues_eq_self {f : γ → γ} {m : Dict α γ} (h : ∀ a v, m.lookup a = some v → f v = v) :
    mapValues f m = m := by
  have hmap : m.entries.map (Sigma.map id fun _ => f) = m.entries := by
    refine (map_congr_left fun e he => ?_).trans (List.map_id _)
    show (⟨e.1, f e.2⟩ : Sigma fun _ : α => γ) = e
    rw [h e.1 e.2 (mem_lookup_iff.mpr he)]
  refine AList.ext ?_
  rw [mapValues, hmap, entries_toAList, dedupKeys_eq_self m.nodupKeys]

/-! ## The file of a dictionary -/

section
variable {β δ : Type}

def crossEntry (f : β → δ) (e : Sigma fun _ : Bytes => β) : Sigma fun _ : Bytes => δ :=
  ⟨coerce e.1, f e.2⟩

def crossed (f : β → δ) (m : Dict Bytes β) : Dict Bytes δ :=
  (m.entries.map (crossEntry f)).toAList

def Utf8Keys (m : Dict Bytes β) : Prop := ∀ k ∈ m, Utf8 k

variable {m : Dict Bytes β}

lemma lookup_crossed (f : β → δ) (h : Utf8Keys m) (k : Bytes) :
    (crossed f m).lookup k = (m.lookup k).map f := by
  have hmap : m.entries.map (crossEntry f) = m.entries.map (.map id fun _ => f) := by
    refine map_congr_left fun e he => ?_
    rw [crossEntry, coerce_of_utf8 (h e.1 (mem_keys_of_mem he))]
    rfl
  rw [crossed, lookup_to_alist, hmap, dlookup_map₂]
  rfl

lemma lookup_crossed_isSome (f : β → δ) {k : Bytes} (hk : Utf8 k) (h : (m.lookup k).isSome) :
    ((crossed f m).lookup k).isSome := by
  obtain ⟨v, hv⟩ := isSome_iff_exists.mp h
  rw [crossed, lookup_to_alist, dlookup_isSome]
  have hmem : crossEntry f ⟨k, v⟩ ∈ m.entries.map (crossEntry f) :=
    mem_map_of_mem (mem_lookup_iff.mp hv)
  have hkey := mem_keys_of_mem hmem
  rwa [crossEntry, coerce_of_utf8 hk] at hkey

variable {f : β → δ}

lemma Utf8Keys.crossed (h : Utf8Keys m) : Utf8Keys (crossed f m) := by
  intro k hk
  rw [← lookup_isSome, lookup_crossed f h, isSome_map, lookup_isSome] at hk
  exact h k hk

lemma Utf8Keys.put2 [DecidableEq δ] {m : Dict Bytes (Dict δ γ)} (h : Utf8Keys m) {a : Bytes}
    (ha : Utf8 a) (b : δ) (v : γ) : Utf8Keys (put2 m a b v) := by
  intro k hk
  rcases (mem_insert _).mp hk with rfl | hk
  · exact ha
  · exact h k hk

lemma get2_crossed_mapValues [DecidableEq δ] {ε : Type} (f : γ → ε)
    {m : Dict Bytes (Dict δ γ)} (h : Utf8Keys m) (a : Bytes) (b : δ) :
    get2 (Dict.crossed (mapValues f) m) a b = (get2 m a b).map f := by
  rw [get2, get2, lookup_crossed _ h]
  cases m.lookup a with
  | none => rfl
  | some m' => exact lookup_mapValues f m' b

def Utf8Keys2 (m : Dict Bytes (Dict Bytes β)) : Prop :=
  Utf8Keys m ∧ ∀ a m', m.lookup a = some m' → Utf8Keys m'

lemma Utf8Keys2.put2 {m : Dict Bytes (Dict Bytes β)} (h : Utf8Keys2 m) {a b : Bytes}
    (ha : Utf8 a) (hb : Utf8 b) (v : β) : Utf8Keys2 (put2 m a b v) := by
  refine ⟨h.1.put2 ha b v, fun a' m' hm' k hk => ?_⟩
  by_cases heq : a' = a
  · subst heq
    rw [Dict.put2, lookup_insert, Option.some.injEq] at hm'
    subst hm'
    rcases (mem_insert _).mp hk with rfl | hk
    · exact hb
    · cases hold : m.lookup a' with
      | none => simp [hold, notMem_empty] at hk
      | some old =>
        rw [hold] at hk
        exact h.2 a' old hold k hk
  · rw [Dict.put2, lookup_insert_ne heq] at hm'
    exact h.2 a' m' hm' k hk

lemma Utf8Keys2.crossed {m : Dict Bytes (Dict Bytes β)} (h : Utf8Keys2 m) :
    Utf8Keys2 (Dict.crossed (Dict.crossed f) m) := by
  refine ⟨h.1.crossed, fun a m' hm' => ?_⟩
  rw [lookup_crossed _ h.1, map_eq_some_iff] at hm'
  obtain ⟨old, hold, rfl⟩ := hm'
  exact (h.2 a old hold).crossed

lemma get2_crossed2 {m : Dict Bytes (Dict Bytes β)} (h : Utf8Keys2 m) (a b : Bytes) :
    get2 (Dict.crossed (Dict.crossed f) m) a b = (get2 m a b).map f := by
  rw [get2, get2, lookup_crossed _ h.1]
  cases hm : m.lookup a with
  | none => rfl
  | some m' => exact lookup_crossed f (h.2 a m' hm) b

lemma get2_crossed [DecidableEq δ] {m : Dict Bytes (Dict δ γ)} (h : Utf8Keys m) (a : Bytes)
    (b : δ) : get2 (Dict.crossed id m) a b = get2 m a b := by
  rw [get2, lookup_crossed id h, Option.map_id]
  rfl

end

end Dict

end Lib
