import EdgeGateway.Basic.KeyMap
import Mathlib.Data.List.Nodup

set_option autoImplicit false

/-! # A map that keeps book of owed items

Items that are owed carry different keys, and a map has an entry under exactly these keys; `rel`
says whose item an entry stands for. The order in which items are owed does not matter; an item is
settled by erasing its key, and a new item is booked under a key that is not in use.
-/

namespace EdgeGateway

variable {κ ι α : Type*}

structure Ledger (key : α → κ) (rel : ι → α → Prop) (m : KeyMap κ ι) (owed : List α) : Prop where
  keys : ∀ k, (m.find? k).isSome = true ↔ ∃ a ∈ owed, key a = k
  distinct : (owed.map key).Nodup
  owner : ∀ k i, m.find? k = some i → ∃ a ∈ owed, key a = k ∧ rel i a

namespace Ledger

variable {key : α → κ} {rel rel' : ι → α → Prop} {m : KeyMap κ ι} {owed owed' : List α} {a : α}

theorem empty (key : α → κ) (rel : ι → α → Prop) : Ledger key rel (KeyMap.empty) [] where
  keys := by simp
  distinct := List.nodup_nil
  owner := fun _ _ h => by cases h

theorem perm (h : Ledger key rel m owed) (hperm : owed.Perm owed') : Ledger key rel m owed' where
  keys := by simpa only [hperm.mem_iff] using h.keys
  distinct := (hperm.map key).nodup_iff.mp h.distinct
  owner := by simpa only [hperm.mem_iff] using h.owner

theorem mono (h : Ledger key rel m owed) (hrel : ∀ i a, rel i a → rel' i a) :
    Ledger key rel' m owed where
  keys := h.keys
  distinct := h.distinct
  owner := by
    intro k i hi
    obtain ⟨a, ha, hk, hr⟩ := h.owner k i hi
    exact ⟨a, ha, hk, hrel i a hr⟩

/-- Items with one key are the same. -/
theorem eq_of_key (h : Ledger key rel m owed) {b : α} (ha : a ∈ owed) (hb : b ∈ owed)
    (hkey : key a = key b) : a = b :=
  List.inj_on_of_nodup_map h.distinct ha hb hkey

/-- The entry of an item stands for this item. -/
theorem lookup (h : Ledger key rel m owed) (ha : a ∈ owed) :
    ∃ i, m.find? (key a) = some i ∧ rel i a := by
  obtain ⟨i, hi⟩ := Option.isSome_iff_exists.mp ((h.keys (key a)).mpr ⟨a, ha, rfl⟩)
  obtain ⟨b, hb, hkey, hr⟩ := h.owner _ i hi
  obtain rfl := h.eq_of_key ha hb hkey.symm
  exact ⟨i, hi, hr⟩

/-- A key of no item is free. -/
theorem find?_eq_none (h : Ledger key rel m owed) {k : κ} (hk : ∀ a ∈ owed, key a ≠ k) :
    m.find? k = none := by
  rw [← Option.not_isSome_iff_eq_none, h.keys k]
  rintro ⟨a, ha, heq⟩
  exact hk a ha heq

variable [DecidableEq κ]

theorem settle (h : Ledger key rel m (a :: owed)) : Ledger key rel (m.erase (key a)) owed := by
  obtain ⟨hnew, hdistinct⟩ := List.nodup_cons.mp h.distinct
  have hne : ∀ b ∈ owed, key b ≠ key a := fun b hb heq => hnew (heq ▸ List.mem_map_of_mem hb)
  constructor
  case keys =>
    intro k
    rw [KeyMap.find?_erase]
    by_cases hk : k = key a
    · rw [if_pos hk, hk]
      simpa using hne
    · rw [if_neg hk, h.keys k]
      simp [Ne.symm hk]
  case distinct => exact hdistinct
  case owner =>
    intro k i hi
    rw [KeyMap.find?_erase] at hi
    split_ifs at hi with hk
    obtain ⟨b, hb, hkey, hr⟩ := h.owner k i hi
    rcases List.mem_cons.mp hb with rfl | hb
    · exact absurd hkey.symm hk
    · exact ⟨b, hb, hkey, hr⟩

theorem book (h : Ledger key rel m owed) (hnew : ∀ b ∈ owed, key b ≠ key a) {i : ι}
    (hrel : rel i a) : Ledger key rel (m.emplace (key a) i) (a :: owed) := by
  have hfree := h.find?_eq_none hnew
  constructor
  case keys =>
    intro k
    rw [KeyMap.find?_emplace hfree]
    by_cases hk : k = key a
    · rw [if_pos hk]
      simp [hk]
    · rw [if_neg hk, h.keys k]
      simp [Ne.symm hk]
  case distinct =>
    rw [List.map_cons, List.nodup_cons]
    refine ⟨fun hmem => ?_, h.distinct⟩
    obtain ⟨b, hb, heq⟩ := List.mem_map.mp hmem
    exact hnew b hb heq
  case owner =>
    intro k j hj
    rw [KeyMap.find?_emplace hfree] at hj
    split_ifs at hj with hk
    · obtain rfl := Option.some.inj hj
      exact ⟨a, List.mem_cons_self, hk.symm, hrel⟩
    · obtain ⟨b, hb, hkey, hr⟩ := h.owner k j hj
      exact ⟨b, List.mem_cons_of_mem _ hb, hkey, hr⟩

end Ledger

end EdgeGateway
