import Mathlib.Algebra.BigOperators.Group.List.Basic
import Mathlib.Algebra.Order.Group.Nat
import Mathlib.Data.List.Nodup

/-!
# Mixed radix coordinates

Numbers as coordinates along dimensions, of which the first varies fastest. A
mask keeps some of the dimensions: a number is then an index along those and an
index along the others, and the numbers form a grid whose rows share the latter.
-/

namespace Radix

abbrev Dims := List (Nat × Bool)

def total (dims : Dims) : Nat := (dims.map Prod.fst).prod

def volume (kept : Bool) : Dims → Nat
  | [] => 1
  | (size, mask) :: dims => if mask = kept then size * volume kept dims else volume kept dims

def index (kept : Bool) : Dims → Nat → Nat
  | [], _ => 0
  | (size, mask) :: dims, n =>
    if mask = kept then n % size + size * index kept dims (n / size)
    else index kept dims (n / size)

def place : Dims → Nat → Nat → Nat
  | [], _, _ => 0
  | (size, true) :: dims, row, column => column % size + size * place dims row (column / size)
  | (size, false) :: dims, row, column => row % size + size * place dims (row / size) column

def Positive (dims : Dims) : Prop := ∀ dim ∈ dims, 0 < dim.1

def grid (dims : Dims) : List (List Nat) :=
  (List.range (volume false dims)).map fun row =>
    (List.range (volume true dims)).map fun column => place dims row column

variable {dims : Dims} {size row column n : Nat} {mask kept : Bool}

theorem total_cons : total ((size, mask) :: dims) = size * total dims := rfl

theorem Positive.head (h : Positive ((size, mask) :: dims)) : 0 < size :=
  h _ (List.mem_cons_self ..)

theorem Positive.tail (h : Positive ((size, mask) :: dims)) : Positive dims :=
  fun dim hm => h dim (List.mem_cons_of_mem _ hm)

theorem volume_mul (dims : Dims) : volume true dims * volume false dims = total dims := by
  induction dims with
  | nil => rfl
  | cons dim dims ih =>
    obtain ⟨size, mask⟩ := dim
    rw [total_cons, ← ih]
    cases mask with
    | true => exact Nat.mul_assoc ..
    | false => exact Nat.mul_left_comm ..

theorem index_lt (h : Positive dims) (kept : Bool) (n : Nat) : index kept dims n < volume kept dims := by
  induction dims generalizing n with
  | nil => exact Nat.one_pos
  | cons dim dims ih =>
    obtain ⟨size, mask⟩ := dim
    unfold index volume
    split
    · have hrest := ih h.tail (n / size)
      calc n % size + size * index kept dims (n / size)
          < size + size * index kept dims (n / size) :=
            Nat.add_lt_add_right (Nat.mod_lt _ h.head) _
        _ = size * (index kept dims (n / size) + 1) := by rw [Nat.mul_succ, Nat.add_comm]
        _ ≤ size * volume kept dims := Nat.mul_le_mul_left _ hrest
    · exact ih h.tail _

theorem place_lt (h : Positive dims) (row column : Nat) : place dims row column < total dims := by
  induction dims generalizing row column with
  | nil => exact Nat.one_pos
  | cons dim dims ih =>
    obtain ⟨size, mask⟩ := dim
    have hstep : ∀ digit rest, digit < size → rest < total dims →
        digit + size * rest < size * total dims := by
      intro digit rest hd hr
      calc digit + size * rest < size + size * rest := Nat.add_lt_add_right hd _
        _ = size * (rest + 1) := by rw [Nat.mul_succ, Nat.add_comm]
        _ ≤ size * total dims := Nat.mul_le_mul_left _ hr
    cases mask with
    | true => exact hstep _ _ (Nat.mod_lt _ h.head) (ih h.tail ..)
    | false => exact hstep _ _ (Nat.mod_lt _ h.head) (ih h.tail ..)

theorem digit_mod (size digit rest : Nat) :
    (digit % size + size * rest) % size = digit % size := by
  rw [Nat.add_mul_mod_self_left, Nat.mod_mod]

theorem digit_div (h : 0 < size) (digit rest : Nat) :
    (digit % size + size * rest) / size = rest := by
  rw [Nat.add_mul_div_left _ _ h, Nat.div_eq_of_lt (Nat.mod_lt _ h), Nat.zero_add]

theorem index_true_place (h : Positive dims) (hc : column < volume true dims) :
    index true dims (place dims row column) = column := by
  induction dims generalizing row column with
  | nil => exact (Nat.lt_one_iff.mp hc).symm
  | cons dim dims ih =>
    obtain ⟨size, mask⟩ := dim
    cases mask with
    | true =>
      have hlt : column / size < volume true dims := Nat.div_lt_of_lt_mul hc
      rw [place, index, if_pos rfl, digit_mod, digit_div h.head, ih h.tail hlt,
        Nat.mod_add_div]
    | false =>
      rw [place, index, if_neg Bool.false_ne_true, digit_div h.head, ih h.tail hc]

theorem index_false_place (h : Positive dims) (hr : row < volume false dims) :
    index false dims (place dims row column) = row := by
  induction dims generalizing row column with
  | nil => exact (Nat.lt_one_iff.mp hr).symm
  | cons dim dims ih =>
    obtain ⟨size, mask⟩ := dim
    cases mask with
    | true =>
      rw [place, index, if_neg Bool.false_ne_true.symm, digit_div h.head, ih h.tail hr]
    | false =>
      have hlt : row / size < volume false dims := Nat.div_lt_of_lt_mul hr
      rw [place, index, if_pos rfl, digit_mod, digit_div h.head, ih h.tail hlt,
        Nat.mod_add_div]

theorem place_index (h : Positive dims) (hn : n < total dims) :
    place dims (index false dims n) (index true dims n) = n := by
  induction dims generalizing n with
  | nil => exact (Nat.lt_one_iff.mp hn).symm
  | cons dim dims ih =>
    obtain ⟨size, mask⟩ := dim
    have hlt : n / size < total dims := Nat.div_lt_of_lt_mul hn
    cases mask with
    | true =>
      simp only [index, if_neg Bool.false_ne_true.symm, if_pos, place, digit_mod,
        digit_div h.head, ih h.tail hlt, Nat.mod_add_div]
    | false =>
      simp only [index, if_neg Bool.false_ne_true, if_pos, place, digit_mod,
        digit_div h.head, ih h.tail hlt, Nat.mod_add_div]

-- ---------------------------------------------------------------------------
-- The grid
-- ---------------------------------------------------------------------------

@[simp] theorem length_grid (dims : Dims) : (grid dims).length = volume false dims := by
  simp [grid]

theorem mem_grid {group : List Nat} : group ∈ grid dims ↔
    ∃ row < volume false dims, group = (List.range (volume true dims)).map (place dims row) := by
  simp only [grid, List.mem_map, List.mem_range]
  exact exists_congr fun row => and_congr_right fun _ => eq_comm

theorem mem_row (h : Positive dims) (hr : row < volume false dims) :
    n ∈ (List.range (volume true dims)).map (place dims row) ↔
      n < total dims ∧ index false dims n = row := by
  simp only [List.mem_map, List.mem_range]
  constructor
  · rintro ⟨column, -, rfl⟩
    exact ⟨place_lt h _ _, index_false_place h hr⟩
  · rintro ⟨hn, rfl⟩
    exact ⟨index true dims n, index_lt h _ _, place_index h hn⟩

theorem row_nodup (h : Positive dims) (row : Nat) :
    ((List.range (volume true dims)).map (place dims row)).Nodup := by
  refine List.Nodup.map_on (fun a ha b hb heq => ?_) List.nodup_range
  calc a = index true dims (place dims row a) := (index_true_place h (List.mem_range.mp ha)).symm
    _ = index true dims (place dims row b) := by rw [heq]
    _ = b := index_true_place h (List.mem_range.mp hb)

/-- Every number is in one row, once. -/
theorem grid_perm (h : Positive dims) :
    (grid dims).flatten.Perm (List.range (total dims)) := by
  refine (List.perm_ext_iff_of_nodup ?_ List.nodup_range).mpr fun n => ?_
  · refine List.nodup_flatten.mpr ⟨fun group hg => ?_, ?_⟩
    · obtain ⟨row, -, rfl⟩ := mem_grid.mp hg
      exact row_nodup h row
    · refine List.pairwise_map.mpr (List.nodup_range.pairwise_of_forall_ne ?_)
      intro a ha b hb hne n hna hnb
      have hra := ((mem_row h (List.mem_range.mp ha)).mp hna).2
      exact hne (hra.symm.trans ((mem_row h (List.mem_range.mp hb)).mp hnb).2)
  · rw [List.mem_flatten, List.mem_range]
    constructor
    · rintro ⟨group, hg, hn⟩
      obtain ⟨row, hr, rfl⟩ := mem_grid.mp hg
      exact ((mem_row h hr).mp hn).1
    · intro hn
      have hr := index_lt h false n
      exact ⟨_, mem_grid.mpr ⟨_, hr, rfl⟩, (mem_row h hr).mpr ⟨hn, rfl⟩⟩

/-- The grid of the other dimensions. -/
def flip (dims : Dims) : Dims := dims.map fun dim => (dim.1, !dim.2)

theorem Positive.flip (h : Positive dims) : Positive (flip dims) := by
  intro dim hm
  obtain ⟨source, hsource, rfl⟩ := List.mem_map.mp hm
  exact h source hsource

theorem total_flip (dims : Dims) : total (flip dims) = total dims := by
  simp [total, flip, Function.comp_def]

theorem volume_flip (kept : Bool) (dims : Dims) : volume kept (flip dims) = volume (!kept) dims := by
  induction dims with
  | nil => rfl
  | cons dim dims ih =>
    obtain ⟨size, mask⟩ := dim
    change volume kept ((size, !mask) :: flip dims) = _
    rw [volume, volume, ih]
    cases mask <;> cases kept <;> rfl

theorem index_flip (kept : Bool) (dims : Dims) (n : Nat) :
    index kept (flip dims) n = index (!kept) dims n := by
  induction dims generalizing n with
  | nil => rfl
  | cons dim dims ih =>
    obtain ⟨size, mask⟩ := dim
    change index kept ((size, !mask) :: flip dims) n = _
    rw [index, index, ih]
    cases mask <;> cases kept <;> rfl

-- ---------------------------------------------------------------------------
-- Values in rows
-- ---------------------------------------------------------------------------

section Values

variable {α : Type*} [Inhabited α] {values : List α}

def rowOf (values : List α) (dims : Dims) (row : Nat) : List α :=
  ((List.range (volume true dims)).map (place dims row)).map (values.getD · default)

def rowsOf (values : List α) (dims : Dims) : List (List α) :=
  (List.range (volume false dims)).map (rowOf values dims)

theorem rowsOf_eq (values : List α) (dims : Dims) :
    rowsOf values dims = (grid dims).map (List.map (values.getD · default)) := by
  rw [grid, List.map_map]
  rfl

theorem map_getD_range (values : List α) :
    (List.range values.length).map (values.getD · default) = values := by
  refine List.ext_getElem (by simp) fun n hn hv => ?_
  simp [List.getD_eq_getElem?_getD, List.getElem?_eq_getElem hv]

/-- Every value is in one row, as often as it is there. -/
theorem rowsOf_perm (h : Positive dims) (hlen : values.length = total dims) :
    (rowsOf values dims).flatten.Perm values := by
  have hperm := (grid_perm h).map (values.getD · default)
  rwa [List.map_flatten, ← rowsOf_eq, ← hlen, map_getD_range] at hperm

@[simp] theorem length_rowOf (values : List α) (dims : Dims) (row : Nat) :
    (rowOf values dims row).length = volume true dims := by
  simp [rowOf]

theorem mem_rowOf (h : Positive dims) (hlen : values.length = total dims)
    (hr : row < volume false dims) {value : α} : value ∈ rowOf values dims row ↔
      ∃ (n : Nat) (hn : n < values.length), index false dims n = row ∧ values[n] = value := by
  rw [rowOf, List.mem_map]
  constructor
  · rintro ⟨n, hm, rfl⟩
    obtain ⟨hn, hrow⟩ := (mem_row h hr).mp hm
    rw [← hlen] at hn
    exact ⟨n, hn, hrow, by simp [List.getD_eq_getElem?_getD, List.getElem?_eq_getElem hn]⟩
  · rintro ⟨n, hn, hrow, rfl⟩
    refine ⟨n, (mem_row h hr).mpr ⟨hlen ▸ hn, hrow⟩, ?_⟩
    simp [List.getD_eq_getElem?_getD, List.getElem?_eq_getElem hn]

theorem mem_of_mem_rowOf (h : Positive dims) (hlen : values.length = total dims)
    (hr : row < volume false dims) {value : α} (hm : value ∈ rowOf values dims row) :
    value ∈ values := by
  obtain ⟨n, hn, -, rfl⟩ := (mem_rowOf h hlen hr).mp hm
  exact List.getElem_mem hn

theorem getElem_mem_rowOf (h : Positive dims) (hlen : values.length = total dims)
    (hnodup : values.Nodup) (hr : row < volume false dims) (hn : n < values.length) :
    values[n] ∈ rowOf values dims row ↔ index false dims n = row := by
  rw [mem_rowOf h hlen hr]
  constructor
  · rintro ⟨n', hn', hrow, heq⟩
    rwa [(hnodup.getElem_inj_iff).mp heq] at hrow
  · intro hrow
    exact ⟨n, hn, hrow, rfl⟩

theorem rowOf_nodup (h : Positive dims) (hlen : values.length = total dims)
    (hnodup : values.Nodup) (row : Nat) : (rowOf values dims row).Nodup := by
  refine List.Nodup.map_on (fun a ha b hb heq => ?_) (row_nodup h row)
  have hlt : ∀ n ∈ (List.range (volume true dims)).map (place dims row), n < values.length := by
    intro n hm
    obtain ⟨column, -, rfl⟩ := List.mem_map.mp hm
    exact hlen ▸ place_lt h row column
  simpa [List.getD_eq_getElem?_getD, List.getElem?_eq_getElem (hlt _ ha),
    List.getElem?_eq_getElem (hlt _ hb), hnodup.getElem_inj_iff] using heq

theorem getElem?_rowOf (h : Positive dims) (hlen : values.length = total dims)
    (hn : n < values.length) :
    (rowOf values dims (index false dims n))[index true dims n]? = some values[n] := by
  rw [rowOf, List.getElem?_map, List.getElem?_map, List.getElem?_range (index_lt h true n)]
  simp [place_index h (hlen ▸ hn), List.getD_eq_getElem?_getD, List.getElem?_eq_getElem hn]

theorem idxOf_rowOf [DecidableEq α] (h : Positive dims) (hlen : values.length = total dims)
    (hnodup : values.Nodup) (hn : n < values.length) :
    (rowOf values dims (index false dims n)).idxOf values[n] = index true dims n := by
  obtain ⟨hlt, hget⟩ := List.getElem?_eq_some_iff.mp (getElem?_rowOf h hlen hn)
  rw [← hget]
  exact (rowOf_nodup h hlen hnodup _).idxOf_getElem _ hlt

/-- Rows and columns meet in one value. -/
theorem rowOf_meet (h : Positive dims) (hlen : values.length = total dims)
    (hnodup : values.Nodup) (hr : row < volume false dims) (hc : column < volume true dims) :
    ∃! value, value ∈ rowOf values dims row ∧ value ∈ rowOf values (flip dims) column := by
  have hflip : column < volume false (flip dims) := (volume_flip false dims).symm ▸ hc
  have hlenFlip : values.length = total (flip dims) := hlen.trans (total_flip dims).symm
  have hplace : place dims row column < values.length := hlen ▸ place_lt h row column
  refine ⟨values[place dims row column], ⟨?_, ?_⟩, ?_⟩
  · exact (getElem_mem_rowOf h hlen hnodup hr hplace).mpr (index_false_place h hr)
  · rw [getElem_mem_rowOf h.flip hlenFlip hnodup hflip hplace, index_flip]
    exact index_true_place h hc
  · rintro value ⟨hrow, hcolumn⟩
    obtain ⟨n, hn, hindex, rfl⟩ := (mem_rowOf h hlen hr).mp hrow
    rw [getElem_mem_rowOf h.flip hlenFlip hnodup hflip hn, index_flip] at hcolumn
    have hn' := place_index h (hlen ▸ hn)
    rw [hindex, show index true dims n = column from hcolumn] at hn'
    exact hnodup.getElem_inj_iff.mpr hn'.symm

end Values

end Radix
