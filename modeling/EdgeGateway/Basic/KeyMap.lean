import Mathlib.Data.List.Perm.Basic
import Mathlib.Logic.Function.Basic

set_option autoImplicit false

/-! # Ordered maps over a finite key type

A map with keys of a finite type is a partial function; iterating over it visits the keys
in a fixed ascending order. `Keys κ` supplies that order. `toList` is the iteration and
`size` its length; the four updates (`emplace`, `modify`, `erase`, `empty`) come with the
lookup equations and with their effect on the iteration up to reordering.
-/

namespace EdgeGateway

/-- The keys of a finite key type, in ascending order. -/
class Keys (κ : Type*) where
  keys : List κ
  nodup_keys : keys.Nodup
  mem_keys : ∀ k, k ∈ keys

/-- A finite map: a partial function on a finite key type. -/
@[ext] structure KeyMap (κ α : Type*) where
  find? : κ → Option α

namespace KeyMap

variable {κ α : Type*}

def empty : KeyMap κ α := ⟨fun _ => none⟩

section Updates

variable [DecidableEq κ]

/-- Set what is stored under `k`. -/
def set (m : KeyMap κ α) (k : κ) (o : Option α) : KeyMap κ α :=
  ⟨fun k' => if k' = k then o else m.find? k'⟩

/-- Insert `v` under `k` unless the key is taken. -/
def emplace (m : KeyMap κ α) (k : κ) (v : α) : KeyMap κ α :=
  if (m.find? k).isSome then m else m.set k (some v)

/-- Change the value under `k`, when there is one. -/
def modify (m : KeyMap κ α) (k : κ) (f : α → α) : KeyMap κ α :=
  m.set k ((m.find? k).map f)

def erase (m : KeyMap κ α) (k : κ) : KeyMap κ α := m.set k none

end Updates

/-- Change every value. -/
def map (m : KeyMap κ α) (f : α → α) : KeyMap κ α := ⟨fun k => (m.find? k).map f⟩

/-- The stored pairs in ascending key order. -/
def toList [Keys κ] (m : KeyMap κ α) : List (κ × α) :=
  (Keys.keys (κ := κ)).filterMap fun k => (m.find? k).map fun v => (k, v)

def size [Keys κ] (m : KeyMap κ α) : Nat := m.toList.length

/-! ## Lookups -/

@[simp] theorem find?_empty (k : κ) : (empty : KeyMap κ α).find? k = none := rfl

@[simp] theorem find?_map (m : KeyMap κ α) (f : α → α) (k : κ) :
    (m.map f).find? k = (m.find? k).map f := rfl

section Updates

variable [DecidableEq κ]

theorem find?_set (m : KeyMap κ α) (k k' : κ) (o : Option α) :
    (m.set k o).find? k' = if k' = k then o else m.find? k' := rfl

theorem find?_emplace {m : KeyMap κ α} {k : κ} (h : m.find? k = none) (v : α) (k' : κ) :
    (m.emplace k v).find? k' = if k' = k then some v else m.find? k' := by
  simp [emplace, h, find?_set]

/-- What is there stays there. -/
theorem find?_emplace_of_some {m : KeyMap κ α} {k' : κ} {w : α} (h : m.find? k' = some w) (k : κ)
    (v : α) : (m.emplace k v).find? k' = some w := by
  unfold emplace
  split_ifs with hthere
  · exact h
  · rw [find?_set, if_neg]
    · exact h
    · rintro rfl
      exact hthere (by rw [h]; rfl)

theorem find?_emplace_self (m : KeyMap κ α) (k : κ) (v : α) :
    (m.emplace k v).find? k = some ((m.find? k).getD v) := by
  unfold emplace
  cases h : m.find? k with
  | none => simp [find?_set]
  | some w => simp [h]

theorem find?_modify (m : KeyMap κ α) (k : κ) (f : α → α) (k' : κ) :
    (m.modify k f).find? k' = if k' = k then (m.find? k').map f else m.find? k' := by
  rw [modify, find?_set]
  by_cases hk : k' = k
  · rw [if_pos hk, if_pos hk, hk]
  · rw [if_neg hk, if_neg hk]

theorem find?_erase (m : KeyMap κ α) (k k' : κ) :
    (m.erase k).find? k' = if k' = k then none else m.find? k' := rfl

end Updates

/-! ## The iteration -/

section Iteration

variable [Keys κ]

theorem mem_toList {m : KeyMap κ α} {k : κ} {v : α} :
    (k, v) ∈ m.toList ↔ m.find? k = some v := by
  simp only [toList, List.mem_filterMap, Option.map_eq_some_iff, Prod.mk.injEq]
  constructor
  · rintro ⟨k', -, v', hv, rfl, rfl⟩
    exact hv
  · intro h
    exact ⟨k, Keys.mem_keys k, v, h, rfl, rfl⟩

/-- The keys of the iteration are the keys with a value, each once. -/
theorem keys_toList (m : KeyMap κ α) :
    m.toList.map Prod.fst = (Keys.keys (κ := κ)).filter fun k => (m.find? k).isSome := by
  unfold toList
  induction (Keys.keys (κ := κ)) with
  | nil => rfl
  | cons k ks ih => cases hk : m.find? k <;> simp [hk, ih]

theorem nodup_keys_toList (m : KeyMap κ α) : (m.toList.map Prod.fst).Nodup := by
  rw [keys_toList]
  exact Keys.nodup_keys.filter _

/-- Maps that agree in what `g` shows of their values. -/
theorem map_toList_congr {β γ : Type*} {m : KeyMap κ α} {m' : KeyMap κ β} (g : κ → α → γ)
    (g' : κ → β → γ) (h : ∀ k, (m.find? k).map (g k) = (m'.find? k).map (g' k)) :
    (m.toList.map fun kv => g kv.1 kv.2) = m'.toList.map fun kv => g' kv.1 kv.2 := by
  simp only [toList, List.map_filterMap, Option.map_map]
  congr 1
  funext k
  simpa only [Function.comp_def] using h k

@[simp] theorem toList_empty : (empty : KeyMap κ α).toList = [] := by
  simp [toList, empty]

@[simp] theorem size_empty : (empty : KeyMap κ α).size = 0 := by simp [size]

theorem size_eq_zero {m : KeyMap κ α} : m.size = 0 ↔ m = empty := by
  constructor
  · intro h
    have hnil : m.toList = [] := List.eq_nil_of_length_eq_zero h
    ext k v
    rw [← mem_toList, hnil]
    simp
  · rintro rfl
    exact size_empty

theorem size_eq_length_keys (m : KeyMap κ α) :
    m.size = ((Keys.keys (κ := κ)).filter fun k => (m.find? k).isSome).length := by
  rw [← keys_toList, List.length_map, size]

/-- Two maps with the same keys have the same size. -/
theorem size_congr {β : Type*} {m : KeyMap κ α} {m' : KeyMap κ β}
    (h : ∀ k, (m.find? k).isSome = (m'.find? k).isSome) : m.size = m'.size := by
  rw [size_eq_length_keys, size_eq_length_keys]
  simp only [h]

@[simp] theorem size_map (m : KeyMap κ α) (f : α → α) : (m.map f).size = m.size :=
  size_congr fun k => by simp

variable [DecidableEq κ]

omit [Keys κ] in
private theorem filterMap_set_of_notMem (m : KeyMap κ α) (k : κ) (o : Option α)
    {ks : List κ} (hks : k ∉ ks) :
    (ks.filterMap fun k' => ((m.set k o).find? k').map fun v => (k', v))
      = ks.filterMap fun k' => (m.find? k').map fun v => (k', v) := by
  refine List.filterMap_congr fun k' hk' => ?_
  have hne : k' ≠ k := by rintro rfl; exact hks hk'
  rw [find?_set, if_neg hne]

/-- Taking a stored pair out of the map takes it out of the iteration. -/
theorem toList_erase_perm {m : KeyMap κ α} {k : κ} {v : α} (h : m.find? k = some v) :
    m.toList.Perm ((k, v) :: (m.erase k).toList) := by
  have key : ∀ ks : List κ, ks.Nodup → k ∈ ks →
      (ks.filterMap fun k' => (m.find? k').map fun v => (k', v)).Perm
        ((k, v) :: ks.filterMap fun k' => ((m.erase k).find? k').map fun v => (k', v)) := by
    intro ks
    induction ks with
    | nil => intro _ hmem; cases hmem
    | cons a ks ih =>
        intro hnd hmem
        obtain ⟨ha, hks⟩ := List.nodup_cons.mp hnd
        by_cases hak : a = k
        · subst hak
          have hself : (m.erase a).find? a = none := by rw [find?_erase, if_pos rfl]
          rw [List.filterMap_cons_some (by rw [h]; rfl),
            List.filterMap_cons_none (by rw [hself]; rfl), erase,
            filterMap_set_of_notMem m a none ha]
        · have hin : k ∈ ks := by
            rcases List.mem_cons.mp hmem with rfl | hin
            · exact absurd rfl hak
            · exact hin
          have hrest := ih hks hin
          have ha' : (m.erase k).find? a = m.find? a := by rw [find?_erase, if_neg hak]
          cases hma : m.find? a with
          | none =>
              rw [List.filterMap_cons_none (by rw [hma]; rfl),
                List.filterMap_cons_none (by rw [ha', hma]; rfl)]
              exact hrest
          | some w =>
              rw [List.filterMap_cons_some (b := (a, w)) (by rw [hma]; rfl),
                List.filterMap_cons_some (b := (a, w)) (by rw [ha', hma]; rfl)]
              exact (hrest.cons (a, w)).trans (List.Perm.swap _ _ _)
  exact key _ Keys.nodup_keys (Keys.mem_keys k)

theorem size_erase {m : KeyMap κ α} {k : κ} {v : α} (h : m.find? k = some v) :
    m.size = (m.erase k).size + 1 := by
  simpa [size] using (toList_erase_perm h).length_eq

/-- A fresh key adds one pair to the iteration. -/
theorem toList_emplace_perm {m : KeyMap κ α} {k : κ} (h : m.find? k = none) (v : α) :
    (m.emplace k v).toList.Perm ((k, v) :: m.toList) := by
  have hself : (m.emplace k v).find? k = some v := by rw [find?_emplace h, if_pos rfl]
  have hback : (m.emplace k v).erase k = m := by
    ext1; funext k'
    rw [find?_erase, find?_emplace h]
    by_cases hk : k' = k
    · rw [if_pos hk, hk, h]
    · rw [if_neg hk, if_neg hk]
  have := toList_erase_perm hself
  rwa [hback] at this

theorem size_emplace {m : KeyMap κ α} {k : κ} (h : m.find? k = none) (v : α) :
    (m.emplace k v).size = m.size + 1 := by
  simpa [size] using (toList_emplace_perm h v).length_eq

end Iteration

end KeyMap

end EdgeGateway
