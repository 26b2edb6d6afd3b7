import Mathlib.Data.List.Basic
import Mathlib.Data.List.Nodup
import Mathlib.Data.List.Lookmap

/-!
# Insertion-ordered dictionaries

A finite map as the list of its entries in the order the keys were first
inserted, with no key twice. Overwriting a key keeps its place, erasing and
inserting again moves it to the end. Iteration order is part of the value,
so two dictionaries with the same bindings may differ.
-/

structure Dict (κ : Type u) (α : Type v) where
  entries : List (κ × α)
  nodup : (entries.map Prod.fst).Nodup

namespace Dict

variable {κ : Type u} {α : Type v}

theorem ext' {d e : Dict κ α} (h : d.entries = e.entries) : d = e := by
  cases d
  cases e
  cases h
  rfl

def empty : Dict κ α := ⟨[], List.nodup_nil⟩

instance : EmptyCollection (Dict κ α) := ⟨empty⟩
instance : Inhabited (Dict κ α) := ⟨empty⟩

instance [DecidableEq κ] [DecidableEq α] : DecidableEq (Dict κ α) := fun d e =>
  decidable_of_iff (d.entries = e.entries) ⟨ext', fun h => h ▸ rfl⟩

def keys (d : Dict κ α) : List κ := d.entries.map Prod.fst

def values (d : Dict κ α) : List α := d.entries.map Prod.snd

def length (d : Dict κ α) : Nat := d.entries.length

@[simp] theorem entries_empty : (∅ : Dict κ α).entries = [] := rfl

theorem keys_nodup (d : Dict κ α) : d.keys.Nodup := d.nodup

def mapValues (f : α → β) (d : Dict κ α) : Dict κ β where
  entries := d.entries.map fun entry => (entry.1, f entry.2)
  nodup := by simpa [Function.comp_def] using d.nodup

@[simp] theorem values_mapValues (f : α → β) (d : Dict κ α) :
    (d.mapValues f).values = d.values.map f := by
  simp [values, mapValues, Function.comp_def]

@[simp] theorem keys_mapValues (f : α → β) (d : Dict κ α) : (d.mapValues f).keys = d.keys := by
  simp [keys, mapValues, Function.comp_def]

variable [DecidableEq κ]

-- ---------------------------------------------------------------------------
-- The list operations underneath
-- ---------------------------------------------------------------------------

def lookupIn : List (κ × α) → κ → Option α
  | [], _ => none
  | (k, v) :: rest, key => if k = key then some v else lookupIn rest key

def setIn : List (κ × α) → κ → α → List (κ × α)
  | [], key, value => [(key, value)]
  | (k, v) :: rest, key, value =>
    if k = key then (k, value) :: rest else (k, v) :: setIn rest key value

def eraseIn (entries : List (κ × α)) (key : κ) : List (κ × α) :=
  entries.filter fun entry => entry.1 ≠ key

theorem setIn_keys (entries : List (κ × α)) (key : κ) (value : α) :
    (setIn entries key value).map Prod.fst =
      if key ∈ entries.map Prod.fst then entries.map Prod.fst
      else entries.map Prod.fst ++ [key] := by
  induction entries with
  | nil => simp [setIn]
  | cons entry rest ih =>
    obtain ⟨k, v⟩ := entry
    by_cases h : k = key
    · simp [setIn, h]
    · have h' : ¬ key = k := Ne.symm h
      by_cases hm : key ∈ rest.map Prod.fst <;> simp_all [setIn]

theorem lookupIn_setIn (entries : List (κ × α)) (key other : κ) (value : α) :
    lookupIn (setIn entries key value) other =
      if key = other then some value else lookupIn entries other := by
  induction entries with
  | nil => simp [setIn, lookupIn]
  | cons entry rest ih =>
    obtain ⟨k, v⟩ := entry
    by_cases h : k = key
    · subst h
      by_cases ho : k = other <;> simp [setIn, lookupIn, ho]
    · by_cases hk : k = other
      · subst hk
        simp [setIn, lookupIn, h, Ne.symm h]
      · simp [setIn, lookupIn, h, hk, ih]

theorem lookupIn_eraseIn (entries : List (κ × α)) (key other : κ) :
    lookupIn (eraseIn entries key) other =
      if key = other then none else lookupIn entries other := by
  induction entries with
  | nil => simp [eraseIn, lookupIn]
  | cons entry rest ih =>
    obtain ⟨k, v⟩ := entry
    simp only [eraseIn] at ih
    by_cases h : k = key
    · subst h
      by_cases ho : k = other <;> simp_all [eraseIn, lookupIn]
    · by_cases hk : k = other
      · subst hk
        simp [eraseIn, lookupIn, h, Ne.symm h]
      · simpa [eraseIn, lookupIn, h, hk] using ih

theorem lookupIn_isSome (entries : List (κ × α)) (key : κ) :
    (lookupIn entries key).isSome = true ↔ key ∈ entries.map Prod.fst := by
  induction entries with
  | nil => simp [lookupIn]
  | cons entry rest ih =>
    obtain ⟨k, v⟩ := entry
    by_cases h : k = key
    · simp [lookupIn, h]
    · simp [lookupIn, h, Ne.symm h, ih]

theorem lookupIn_eq_some {entries : List (κ × α)} (hn : (entries.map Prod.fst).Nodup)
    (key : κ) (value : α) : lookupIn entries key = some value ↔ (key, value) ∈ entries := by
  induction entries with
  | nil => simp [lookupIn]
  | cons entry rest ih =>
    obtain ⟨k, v⟩ := entry
    simp only [List.map_cons, List.nodup_cons] at hn
    by_cases h : k = key
    · subst h
      have hk : (k, value) ∉ rest := fun hm => hn.1 (List.mem_map.mpr ⟨_, hm, rfl⟩)
      simp [lookupIn, hk, eq_comm]
    · simp [lookupIn, h, Ne.symm h, ih hn.2]

-- ---------------------------------------------------------------------------
-- Operations
-- ---------------------------------------------------------------------------

def get? (d : Dict κ α) (key : κ) : Option α := lookupIn d.entries key

def getD (d : Dict κ α) (key : κ) (default : α) : α := (d.get? key).getD default

def contains (d : Dict κ α) (key : κ) : Bool := (d.get? key).isSome

def set (d : Dict κ α) (key : κ) (value : α) : Dict κ α where
  entries := setIn d.entries key value
  nodup := by
    have hn := d.nodup
    rw [setIn_keys]
    split
    · exact hn
    · rename_i h
      rw [List.nodup_append]
      refine ⟨hn, List.nodup_singleton _, fun a ha b hb => ?_⟩
      rw [List.mem_singleton.mp hb]
      exact fun e => h (e ▸ ha)

def erase (d : Dict κ α) (key : κ) : Dict κ α where
  entries := eraseIn d.entries key
  nodup := d.nodup.sublist (List.filter_sublist.map _)

def eraseAll (d : Dict κ α) (ks : List κ) : Dict κ α := ks.foldl erase d

-- ---------------------------------------------------------------------------
-- Laws
-- ---------------------------------------------------------------------------

@[simp] theorem get?_empty (key : κ) : (∅ : Dict κ α).get? key = none := rfl

theorem get?_set (d : Dict κ α) (key other : κ) (value : α) :
    (d.set key value).get? other = if key = other then some value else d.get? other :=
  lookupIn_setIn ..

@[simp] theorem get?_set_self (d : Dict κ α) (key : κ) (value : α) :
    (d.set key value).get? key = some value := by
  simp [get?_set]

theorem set_of_get? {d : Dict κ α} {key : κ} {value : α} (h : d.get? key = some value) :
    d.set key value = d := by
  refine ext' ?_
  have hin : ∀ entries : List (κ × α), lookupIn entries key = some value →
      setIn entries key value = entries := by
    intro entries h
    induction entries with
    | nil => cases h
    | cons entry rest ih =>
      obtain ⟨k, v⟩ := entry
      simp only [lookupIn] at h
      simp only [setIn]
      split at h
      · rename_i hk
        cases h
        rw [if_pos hk]
      · rename_i hk
        rw [if_neg hk, ih h]
  exact hin d.entries h

theorem get?_set_ne (d : Dict κ α) {key other : κ} (h : key ≠ other) (value : α) :
    (d.set key value).get? other = d.get? other := by
  simp [get?_set, h]

theorem get?_erase (d : Dict κ α) (key other : κ) :
    (d.erase key).get? other = if key = other then none else d.get? other :=
  lookupIn_eraseIn ..

@[simp] theorem get?_erase_self (d : Dict κ α) (key : κ) : (d.erase key).get? key = none := by
  simp [get?_erase]

theorem get?_erase_ne (d : Dict κ α) {key other : κ} (h : key ≠ other) :
    (d.erase key).get? other = d.get? other := by
  simp [get?_erase, h]

theorem getD_of_get? {d : Dict κ α} {key : κ} {value : α} (h : d.get? key = some value)
    (default : α) : d.getD key default = value := by
  rw [getD, h]
  rfl

theorem getD_of_none {d : Dict κ α} {key : κ} (h : d.get? key = none) (default : α) :
    d.getD key default = default := by
  rw [getD, h]
  rfl

theorem getD_set (d : Dict κ α) (key other : κ) (value default : α) :
    (d.set key value).getD other default = if key = other then value else d.getD other default := by
  unfold getD
  rw [get?_set]
  split <;> rfl

theorem getD_erase (d : Dict κ α) (key other : κ) (default : α) :
    (d.erase key).getD other default = if key = other then default else d.getD other default := by
  unfold getD
  rw [get?_erase]
  split <;> rfl

theorem get?_eraseAll (d : Dict κ α) (ks : List κ) (key : κ) :
    (d.eraseAll ks).get? key = if key ∈ ks then none else d.get? key := by
  induction ks generalizing d with
  | nil => simp [eraseAll]
  | cons k ks ih =>
    show ((d.erase k).eraseAll ks).get? key = _
    rw [ih, get?_erase]
    by_cases hk : k = key
    · simp [hk]
    · simp [hk, Ne.symm hk]

theorem mem_keys (d : Dict κ α) (key : κ) : key ∈ d.keys ↔ (d.get? key).isSome = true :=
  (lookupIn_isSome ..).symm

theorem get?_eq_some (d : Dict κ α) {key : κ} {value : α} :
    d.get? key = some value ↔ (key, value) ∈ d.entries := lookupIn_eq_some d.nodup ..

theorem get?_eq_none (d : Dict κ α) {key : κ} : d.get? key = none ↔ key ∉ d.keys := by
  rw [mem_keys]
  cases d.get? key <;> simp

theorem mem_values_of_get? {d : Dict κ α} {key : κ} {value : α} (h : d.get? key = some value) :
    value ∈ d.values := List.mem_map.mpr ⟨_, d.get?_eq_some.mp h, rfl⟩

theorem exists_get?_of_mem_values {d : Dict κ α} {value : α} (h : value ∈ d.values) :
    ∃ key, d.get? key = some value := by
  obtain ⟨⟨key, v⟩, hm, rfl⟩ := List.mem_map.mp h
  exact ⟨key, d.get?_eq_some.mpr hm⟩

theorem filterMap_keys (d : Dict κ α) : d.keys.filterMap d.get? = d.values := by
  have hget : ∀ entry ∈ d.entries, d.get? entry.1 = some entry.2 := fun entry hmem =>
    d.get?_eq_some.mpr hmem
  rw [keys, values, List.filterMap_map]
  calc d.entries.filterMap (d.get? ∘ Prod.fst)
      = d.entries.filterMap (fun entry => some entry.2) := List.filterMap_congr hget
    _ = d.entries.map Prod.snd := by rw [List.filterMap_eq_map']

@[simp] theorem get?_mapValues (f : α → β) (d : Dict κ α) (key : κ) :
    (d.mapValues f).get? key = (d.get? key).map f := by
  cases hget : d.get? key with
  | none => simpa [get?_eq_none] using hget
  | some value =>
    rw [get?_eq_some] at hget
    exact (get?_eq_some _).mpr (List.mem_map_of_mem hget)

@[simp] theorem contains_eq_true (d : Dict κ α) (key : κ) :
    d.contains key = true ↔ key ∈ d.keys := by
  rw [mem_keys, contains]

theorem keys_set (d : Dict κ α) (key : κ) (value : α) :
    (d.set key value).keys = if key ∈ d.keys then d.keys else d.keys ++ [key] :=
  setIn_keys ..

theorem entries_erase (d : Dict κ α) (key : κ) :
    (d.erase key).entries = d.entries.filter fun entry => entry.1 ≠ key := rfl

theorem entries_set_of_none {d : Dict κ α} {key : κ} (h : d.get? key = none) (value : α) :
    (d.set key value).entries = d.entries ++ [(key, value)] := by
  have hin : ∀ entries : List (κ × α), lookupIn entries key = none →
      setIn entries key value = entries ++ [(key, value)] := by
    intro entries
    induction entries with
    | nil => exact fun _ => rfl
    | cons entry rest ih =>
      obtain ⟨k, v⟩ := entry
      intro hn
      by_cases hk : k = key
      · simp [lookupIn, hk] at hn
      · simp only [lookupIn, hk, if_false] at hn
        simp [setIn, hk, ih hn]
  exact hin d.entries h

/-- What does not see the change of a value does not see the assignment. -/
theorem map_entries_set {d : Dict κ α} {key : κ} {old value : α} (f : κ × α → β)
    (h : d.get? key = some old) (hf : f (key, value) = f (key, old)) :
    (d.set key value).entries.map f = d.entries.map f := by
  have hin : ∀ entries : List (κ × α), lookupIn entries key = some old →
      (setIn entries key value).map f = entries.map f := by
    intro entries
    induction entries with
    | nil => exact fun h => nomatch h
    | cons entry rest ih =>
      obtain ⟨k, v⟩ := entry
      intro hs
      by_cases hk : k = key
      · subst hk
        simp only [lookupIn, if_true, Option.some.injEq] at hs
        simp [setIn, hf, hs]
      · simp only [lookupIn, hk, if_false] at hs
        simp [setIn, hk, ih hs]
  exact hin d.entries h

-- ---------------------------------------------------------------------------
-- Building from a list of pairs
-- ---------------------------------------------------------------------------

/-- Insert the pairs in order; a later pair overwrites an earlier one. -/
def insertAll (d : Dict κ α) (pairs : List (κ × α)) : Dict κ α :=
  pairs.foldl (fun d pair => d.set pair.1 pair.2) d

theorem get?_insertAll {pairs : List (κ × α)} {d : Dict κ α} {key : κ} {value : α}
    (hf : ∀ v, (key, v) ∈ pairs → v = value)
    (hd : ∀ v, d.get? key = some v → v = value) :
    (d.insertAll pairs).get? key = some value ↔
      (key, value) ∈ pairs ∨ d.get? key = some value := by
  induction pairs generalizing d with
  | nil => simp [insertAll]
  | cons pair pairs ih =>
    obtain ⟨k, v⟩ := pair
    show ((d.set k v).insertAll pairs).get? key = some value ↔ _
    have hf' : ∀ w, (key, w) ∈ pairs → w = value := fun w hw => hf w (List.mem_cons_of_mem _ hw)
    by_cases hk : k = key
    · subst hk
      obtain rfl := hf v (List.mem_cons_self ..)
      rw [ih hf' (by simp)]
      simp
    · rw [ih hf' (by simpa [get?_set_ne _ hk] using hd), get?_set_ne _ hk]
      simp [Ne.symm hk]

theorem get?_insertAll_of_not_mem {pairs : List (κ × α)} {d : Dict κ α} {key : κ}
    (hn : ∀ v, (key, v) ∉ pairs) : (d.insertAll pairs).get? key = d.get? key := by
  induction pairs generalizing d with
  | nil => rfl
  | cons pair pairs ih =>
    obtain ⟨k, v⟩ := pair
    have hne : k ≠ key := fun heq => hn v (heq ▸ List.mem_cons_self ..)
    show ((d.set k v).insertAll pairs).get? key = _
    rw [ih fun w hm => hn w (List.mem_cons_of_mem _ hm), get?_set_ne _ hne]

theorem get?_insertAll_of_mem {pairs : List (κ × α)} {d : Dict κ α} {key : κ} {value : α}
    (hm : (key, value) ∈ pairs) (hf : ∀ v, (key, v) ∈ pairs → v = value) :
    (d.insertAll pairs).get? key = some value := by
  induction pairs generalizing d with
  | nil => cases hm
  | cons pair pairs ih =>
    show ((d.set pair.1 pair.2).insertAll pairs).get? key = _
    by_cases hlater : (key, value) ∈ pairs
    · exact ih hlater fun v hv => hf v (List.mem_cons_of_mem _ hv)
    · obtain rfl := (List.mem_cons.mp hm).resolve_right hlater
      rw [get?_insertAll_of_not_mem, get?_set_self]
      exact fun v hv => hlater (hf v (List.mem_cons_of_mem _ hv) ▸ hv)

theorem get?_insertAll_entries (d e : Dict κ α) (key : κ) :
    (d.insertAll e.entries).get? key = (e.get? key).or (d.get? key) := by
  cases hget : e.get? key with
  | none =>
    rw [Option.none_or]
    exact get?_insertAll_of_not_mem fun v hv => by
      rw [e.get?_eq_some.mpr hv] at hget
      cases hget
  | some value =>
    rw [Option.some_or]
    refine get?_insertAll_of_mem (e.get?_eq_some.mp hget) fun v hv => ?_
    exact Option.some.inj ((e.get?_eq_some.mpr hv).symm.trans hget)

theorem get?_insertAll_map (d : Dict κ α) (f : α → α) (key : κ) :
    (d.insertAll (d.entries.map fun entry => (entry.1, f entry.2))).get? key =
      (d.get? key).map f := by
  refine (d.get?_insertAll_entries (d.mapValues f) key).trans ?_
  rw [get?_mapValues]
  cases d.get? key <;> rfl

theorem get?_insertAll_empty {pairs : List (κ × α)} {key : κ} {value : α}
    (hu : ∀ v w, (key, v) ∈ pairs → (key, w) ∈ pairs → v = w) :
    ((∅ : Dict κ α).insertAll pairs).get? key = some value ↔ (key, value) ∈ pairs := by
  by_cases h : ∃ v, (key, v) ∈ pairs
  · obtain ⟨v, hv⟩ := h
    have hget : ((∅ : Dict κ α).insertAll pairs).get? key = some v :=
      (get?_insertAll (fun w hw => hu w v hw hv) (by simp)).mpr (.inl hv)
    rw [hget]
    exact ⟨fun e => Option.some.inj e ▸ hv, fun hm => congrArg _ (hu v value hv hm)⟩
  · rw [get?_insertAll (fun w hw => absurd ⟨w, hw⟩ h) (by simp)]
    simp

/-- Append each pair's value to the list kept under its key. -/
def groupAll (d : Dict κ (List α)) (pairs : List (κ × α)) : Dict κ (List α) :=
  pairs.foldl (fun d pair => d.set pair.1 (d.getD pair.1 [] ++ [pair.2])) d

theorem getD_groupAll (d : Dict κ (List α)) (pairs : List (κ × α)) (key : κ) :
    (d.groupAll pairs).getD key [] =
      d.getD key [] ++ (pairs.filter (·.1 = key)).map Prod.snd := by
  induction pairs generalizing d with
  | nil => simp [groupAll]
  | cons pair pairs ih =>
    obtain ⟨k, v⟩ := pair
    show ((d.set k (d.getD k [] ++ [v])).groupAll pairs).getD key [] = _
    rw [ih]
    by_cases hk : k = key
    · subst hk
      simp [getD]
    · simp [getD, get?_set_ne _ hk, hk]

end Dict
