import Mathlib.Data.List.Basic
import Mathlib.Order.Basic
import Mathlib.Data.Nat.Basic
import GfDit.Lib.Dict
import GfDit.Lib.Numerals

/-!
# Object graphs

A memory is a list of objects, an object the dictionary of its attributes. A
value is nothing, a leaf, a plain container of values or a reference to an
object. Containers are values: only objects are shared and written to.

`Holds` is what can be reached from a value. A memory that `Grows` has new
objects and leaves the old ones alone, so what old values hold stays the same.
-/

namespace Objects

inductive Container
  | list
  | tuple
  | dict (keys : List String)
  deriving DecidableEq

inductive Value (L : Type u)
  | none
  | leaf (l : L)
  | container (kind : Container) (items : List (Value L))
  | object (ref : Nat)

abbrev Memory (L : Type u) := List (Dict String (Value L))

variable {L : Type u}

-- ---------------------------------------------------------------------------
-- Values
-- ---------------------------------------------------------------------------

namespace Value

@[elab_as_elim]
theorem ind {P : Value L → Prop} (none : P .none) (leaf : ∀ l, P (.leaf l))
    (container : ∀ kind items, (∀ item ∈ items, P item) → P (.container kind items))
    (object : ∀ ref, P (.object ref)) : ∀ v, P v
  | .none => none
  | .leaf l => leaf l
  | .container kind items => container kind items fun item _ => ind none leaf container object item
  | .object ref => object ref

mutual

def mapLeaves {M : Type v} (f : L → M) : Value L → Value M
  | .none => .none
  | .leaf l => .leaf (f l)
  | .container kind items => .container kind (mapAll f items)
  | .object ref => .object ref

def mapAll {M : Type v} (f : L → M) : List (Value L) → List (Value M)
  | [] => []
  | item :: items => mapLeaves f item :: mapAll f items

end

theorem mapAll_eq {M : Type v} (f : L → M) (items : List (Value L)) :
    mapAll f items = items.map (mapLeaves f) := by
  induction items with
  | nil => rfl
  | cons item items ih => rw [mapAll, ih, List.map_cons]

@[simp] theorem mapLeaves_none {M : Type v} (f : L → M) : mapLeaves f .none = .none := by
  rw [mapLeaves]

@[simp] theorem mapLeaves_leaf {M : Type v} (f : L → M) (l : L) :
    mapLeaves f (.leaf l) = .leaf (f l) := by
  rw [mapLeaves]

@[simp] theorem mapLeaves_container {M : Type v} (f : L → M) (kind : Container)
    (items : List (Value L)) :
    mapLeaves f (.container kind items) = .container kind (items.map (mapLeaves f)) := by
  rw [mapLeaves, mapAll_eq]

@[simp] theorem mapLeaves_object {M : Type v} (f : L → M) (ref : Nat) :
    mapLeaves f (.object ref) = .object ref := by
  rw [mapLeaves]

theorem mapLeaves_mapLeaves {M : Type v} {N : Type w} (f : L → M) (g : M → N) (value : Value L) :
    mapLeaves g (mapLeaves f value) = mapLeaves (fun l => g (f l)) value := by
  induction value using ind with
  | none | leaf _ | object _ => simp
  | container kind items ih =>
    simp only [mapLeaves_container, List.map_map]
    exact congrArg _ (List.map_congr_left ih)

inductive Has : Value L → L → Prop
  | leaf (l : L) : Has (.leaf l) l
  | item {kind : Container} {items : List (Value L)} {item : Value L} {l : L}
      (hm : item ∈ items) (h : Has item l) : Has (.container kind items) l

inductive Mentions : Value L → Nat → Prop
  | object (ref : Nat) : Mentions (.object ref) ref
  | item {kind : Container} {items : List (Value L)} {item : Value L} {ref : Nat}
      (hm : item ∈ items) (h : Mentions item ref) : Mentions (.container kind items) ref

theorem not_has_none {l : L} : ¬ Has .none l := fun h => by cases h

theorem not_mentions_none {ref : Nat} : ¬ Mentions (.none : Value L) ref := fun h => by cases h

theorem has_leaf {l l' : L} : Has (.leaf l) l' ↔ l' = l := by
  constructor
  · intro h
    cases h
    rfl
  · rintro rfl
    exact .leaf l'

theorem has_container {kind : Container} {items : List (Value L)} {l : L} :
    Has (.container kind items) l ↔ ∃ item ∈ items, Has item l := by
  constructor
  · rintro ⟨⟩
    exact ⟨_, ‹_›, ‹_›⟩
  · rintro ⟨item, hm, h⟩
    exact .item hm h

theorem mentions_container {kind : Container} {items : List (Value L)} {ref : Nat} :
    Mentions (.container kind items) ref ↔ ∃ item ∈ items, Mentions item ref := by
  constructor
  · rintro ⟨⟩
    exact ⟨_, ‹_›, ‹_›⟩
  · rintro ⟨item, hm, h⟩
    exact .item hm h

theorem has_mapLeaves {M : Type v} {f : L → M} {value : Value L} {l' : M} :
    Has (mapLeaves f value) l' ↔ ∃ l, Has value l ∧ f l = l' := by
  induction value using ind with
  | none =>
    rw [mapLeaves_none]
    constructor
    · rintro ⟨⟩
    · rintro ⟨_, ⟨⟩, -⟩
  | leaf l =>
    rw [mapLeaves_leaf, has_leaf]
    constructor
    · rintro rfl
      exact ⟨l, .leaf l, rfl⟩
    · rintro ⟨l, h, rfl⟩
      rw [has_leaf.mp h]
  | container kind items ih =>
    simp only [mapLeaves_container, has_container, List.mem_map]
    constructor
    · rintro ⟨_, ⟨item, hm, rfl⟩, h⟩
      obtain ⟨l, hl, rfl⟩ := (ih item hm).mp h
      exact ⟨l, ⟨item, hm, hl⟩, rfl⟩
    · rintro ⟨l, ⟨item, hm, hl⟩, rfl⟩
      exact ⟨_, ⟨item, hm, rfl⟩, (ih item hm).mpr ⟨l, hl, rfl⟩⟩
  | object ref =>
    rw [mapLeaves_object]
    constructor
    · rintro ⟨⟩
    · rintro ⟨_, ⟨⟩, -⟩

theorem mentions_mapLeaves {M : Type v} {f : L → M} {value : Value L} {ref : Nat} :
    Mentions (mapLeaves f value) ref ↔ Mentions value ref := by
  induction value using ind with
  | none => rw [mapLeaves_none]; exact iff_of_false not_mentions_none not_mentions_none
  | leaf l =>
    rw [mapLeaves_leaf]
    exact iff_of_false (fun h => by cases h) fun h => by cases h
  | container kind items ih =>
    simp only [mapLeaves_container, mentions_container, List.mem_map]
    constructor
    · rintro ⟨_, ⟨item, hm, rfl⟩, h⟩
      exact ⟨item, hm, (ih item hm).mp h⟩
    · rintro ⟨item, hm, h⟩
      exact ⟨_, ⟨item, hm, rfl⟩, (ih item hm).mpr h⟩
  | object ref' =>
    rw [mapLeaves_object]
    exact ⟨fun h => by cases h; exact .object _, fun h => by cases h; exact .object _⟩

end Value

-- ---------------------------------------------------------------------------
-- Memories
-- ---------------------------------------------------------------------------

namespace Memory

def attrs (m : Memory L) (ref : Nat) : Dict String (Value L) := m.getD ref ∅

def alloc (m : Memory L) (attributes : Dict String (Value L)) : Memory L × Nat :=
  (m ++ [attributes], m.length)

def setattr (m : Memory L) (ref : Nat) (name : String) (value : Value L) : Memory L :=
  m.modify ref (·.set name value)

/-- A loop of assignments to the attributes of an object. -/
def setattrs (m : Memory L) (ref : Nat) (pairs : List (String × Value L)) : Memory L :=
  pairs.foldl (fun m pair => setattr m ref pair.1 pair.2) m

variable {m m' : Memory L} {ref other : Nat}

theorem attrs_alloc_old (h : ref < m.length) (attributes : Dict String (Value L)) :
    attrs (m.alloc attributes).1 ref = attrs m ref := by
  simp only [attrs, alloc, List.getD_eq_getElem?_getD, List.getElem?_append_left h]

@[simp] theorem attrs_alloc_new (m : Memory L) (attributes : Dict String (Value L)) :
    attrs (m.alloc attributes).1 m.length = attributes := by
  simp [attrs, alloc, List.getD_eq_getElem?_getD]

@[simp] theorem length_alloc (m : Memory L) (attributes : Dict String (Value L)) :
    (m.alloc attributes).1.length = m.length + 1 := by
  simp [alloc]

@[simp] theorem length_setattr (m : Memory L) (ref : Nat) (name : String) (value : Value L) :
    (m.setattr ref name value).length = m.length :=
  List.length_modify ..

theorem attrs_setattr_self (h : ref < m.length) (name : String) (value : Value L) :
    attrs (m.setattr ref name value) ref = (attrs m ref).set name value := by
  simp only [attrs, setattr, List.getD_eq_getElem?_getD, List.getElem?_modify, if_pos,
    List.getElem?_eq_getElem h, Option.map_eq_map, Option.map_some, Option.getD_some]

theorem attrs_setattr_ne (h : ref ≠ other) (name : String) (value : Value L) :
    attrs (m.setattr ref name value) other = attrs m other := by
  simp only [attrs, setattr, List.getD_eq_getElem?_getD, List.getElem?_modify, if_neg h,
    id_map']

@[simp] theorem length_setattrs (m : Memory L) (ref : Nat) (pairs : List (String × Value L)) :
    (m.setattrs ref pairs).length = m.length := by
  induction pairs generalizing m with
  | nil => rfl
  | cons pair pairs ih =>
    show ((m.setattr ref pair.1 pair.2).setattrs ref pairs).length = _
    rw [ih, length_setattr]

theorem attrs_setattrs_self (h : ref < m.length) (pairs : List (String × Value L)) :
    attrs (m.setattrs ref pairs) ref = (attrs m ref).insertAll pairs := by
  induction pairs generalizing m with
  | nil => rfl
  | cons pair pairs ih =>
    show attrs ((m.setattr ref pair.1 pair.2).setattrs ref pairs) ref = _
    rw [ih (by rwa [length_setattr]), attrs_setattr_self h]
    rfl

theorem attrs_setattrs_ne (h : ref ≠ other) (pairs : List (String × Value L)) :
    attrs (m.setattrs ref pairs) other = attrs m other := by
  induction pairs generalizing m with
  | nil => rfl
  | cons pair pairs ih =>
    show attrs ((m.setattr ref pair.1 pair.2).setattrs ref pairs) other = _
    rw [ih, attrs_setattr_ne h]

-- ---------------------------------------------------------------------------
-- Growing
-- ---------------------------------------------------------------------------

/-- The objects that were there are as they were. -/
structure Grows (m m' : Memory L) : Prop where
  length : m.length ≤ m'.length
  attrs : ∀ ref < m.length, attrs m' ref = attrs m ref

theorem Grows.refl (m : Memory L) : Grows m m := ⟨le_rfl, fun _ _ => rfl⟩

theorem Grows.alloc (h : Grows m m') (attributes : Dict String (Value L)) :
    Grows m (m'.alloc attributes).1 :=
  ⟨by rw [length_alloc]; exact h.length.trans (Nat.le_succ _), fun ref hr => by
    rw [attrs_alloc_old (hr.trans_le h.length), h.attrs ref hr]⟩

theorem Grows.setattr (h : Grows m m') (hr : m.length ≤ ref) (name : String) (value : Value L) :
    Grows m (m'.setattr ref name value) :=
  ⟨by rw [length_setattr]; exact h.length, fun other ho => by
    rw [attrs_setattr_ne (ho.trans_le hr).ne', h.attrs other ho]⟩

theorem Grows.setattrs (h : Grows m m') (hr : m.length ≤ ref) (pairs : List (String × Value L)) :
    Grows m (m'.setattrs ref pairs) :=
  ⟨by rw [length_setattrs]; exact h.length, fun other ho => by
    rw [attrs_setattrs_ne (ho.trans_le hr).ne', h.attrs other ho]⟩

-- ---------------------------------------------------------------------------
-- What can be reached
-- ---------------------------------------------------------------------------

/-- A leaf in a value or in the objects that can be reached from it. -/
inductive Holds (m : Memory L) : Value L → L → Prop
  | leaf (l : L) : Holds m (.leaf l) l
  | item {kind : Container} {items : List (Value L)} {item : Value L} {l : L}
      (hm : item ∈ items) (h : Holds m item l) : Holds m (.container kind items) l
  | attr {ref : Nat} {name : String} {value : Value L} {l : L}
      (hget : (attrs m ref).get? name = some value) (h : Holds m value l) :
      Holds m (.object ref) l

/-- References lead to objects. -/
def Closed (m : Memory L) : Prop :=
  ∀ ref name value, (attrs m ref).get? name = some value →
    ∀ ref', value.Mentions ref' → ref' < m.length

theorem holds_object {l : L} : Holds m (.object ref) l ↔
    ∃ name value, (attrs m ref).get? name = some value ∧ Holds m value l := by
  constructor
  · rintro ⟨⟩
    exact ⟨_, _, ‹_›, ‹_›⟩
  · rintro ⟨name, value, hget, h⟩
    exact .attr hget h

theorem not_holds_none {l : L} : ¬ Holds m .none l := fun h => by cases h

theorem holds_leaf {l l' : L} : Holds m (.leaf l) l' ↔ l' = l := by
  constructor
  · intro h
    cases h
    rfl
  · rintro rfl
    exact .leaf l'

theorem holds_container {kind : Container} {items : List (Value L)} {l : L} :
    Holds m (.container kind items) l ↔ ∃ item ∈ items, Holds m item l := by
  constructor
  · rintro ⟨⟩
    exact ⟨_, ‹_›, ‹_›⟩
  · rintro ⟨item, hm, h⟩
    exact .item hm h

/-- What is reached is in the value itself or in an object it refers to. -/
theorem holds_iff {value : Value L} {l : L} : Holds m value l ↔
    value.Has l ∨ ∃ ref, value.Mentions ref ∧ Holds m (.object ref) l := by
  induction value using Value.ind with
  | none =>
    refine iff_of_false not_holds_none ?_
    rintro (h | ⟨ref, h, -⟩)
    · exact Value.not_has_none h
    · exact Value.not_mentions_none h
  | leaf l' =>
    rw [holds_leaf, Value.has_leaf]
    refine ⟨.inl, ?_⟩
    rintro (h | ⟨ref, h, -⟩)
    · exact h
    · cases h
  | container kind items ih =>
    rw [holds_container, Value.has_container]
    constructor
    · rintro ⟨item, hm, h⟩
      rcases (ih item hm).mp h with h | ⟨ref, hr, h⟩
      · exact .inl ⟨item, hm, h⟩
      · exact .inr ⟨ref, .item hm hr, h⟩
    · rintro (⟨item, hm, h⟩ | ⟨ref, hr, h⟩)
      · exact ⟨item, hm, (ih item hm).mpr (.inl h)⟩
      · obtain ⟨item, hm, hr⟩ := Value.mentions_container.mp hr
        exact ⟨item, hm, (ih item hm).mpr (.inr ⟨ref, hr, h⟩)⟩
  | object ref =>
    constructor
    · exact fun h => .inr ⟨ref, .object ref, h⟩
    · rintro (h | ⟨ref', hr, h⟩)
      · cases h
      · cases hr
        exact h

theorem Grows.holds_of {value : Value L} {l : L} (h : Grows m m') (hc : Closed m)
    (hold : ∀ ref, value.Mentions ref → ref < m.length) (hl : Holds m' value l) :
    Holds m value l := by
  induction hl with
  | leaf l => exact .leaf l
  | item hm _ ih => exact .item hm (ih fun ref hr => hold ref (.item hm hr))
  | @attr ref name value l hget _ ih =>
    rw [h.attrs ref (hold ref (.object ref))] at hget
    exact .attr hget (ih fun ref' hr => hc ref name value hget ref' hr)

theorem Grows.holds_mono {value : Value L} {l : L} (h : Grows m m') (hc : Closed m)
    (hold : ∀ ref, value.Mentions ref → ref < m.length) (hl : Holds m value l) :
    Holds m' value l := by
  induction hl with
  | leaf l => exact .leaf l
  | item hm _ ih => exact .item hm (ih fun ref hr => hold ref (.item hm hr))
  | @attr ref name value l hget _ ih =>
    have hnew := (h.attrs ref (hold ref (.object ref))).symm ▸ hget
    exact .attr hnew (ih fun ref' hr => hc ref name value hget ref' hr)

theorem Grows.holds {value : Value L} {l : L} (h : Grows m m') (hc : Closed m)
    (hold : ∀ ref, value.Mentions ref → ref < m.length) :
    Holds m' value l ↔ Holds m value l :=
  ⟨h.holds_of hc hold, h.holds_mono hc hold⟩

-- ---------------------------------------------------------------------------
-- Places
-- ---------------------------------------------------------------------------

/-- The value at a path of attribute names, keys and places in a sequence. -/
inductive Slot (m : Memory L) : Value L → List String → Value L → Prop
  | here (value : Value L) : Slot m value [] value
  | attr {ref : Nat} {name : String} {value target : Value L} {path : List String}
      (hget : (attrs m ref).get? name = some value) (h : Slot m value path target) :
      Slot m (.object ref) (name :: path) target
  | entry {keys : List String} {items : List (Value L)} {key : String} {value target : Value L}
      {path : List String} (hget : (keys.zip items).lookup key = some value)
      (h : Slot m value path target) : Slot m (.container (.dict keys) items) (key :: path) target
  | item {kind : Container} {items : List (Value L)} {i : Nat} {value target : Value L}
      {path : List String} (hkind : kind = .list ∨ kind = .tuple) (hget : items[i]? = some value)
      (h : Slot m value path target) :
      Slot m (.container kind items) (toString i :: path) target

theorem slot_nil {value target : Value L} : Slot m value [] target ↔ target = value := by
  constructor
  · rintro ⟨⟩
    rfl
  · rintro rfl
    exact .here target

theorem not_slot_none {part : String} {path : List String} {target : Value L} :
    ¬ Slot m .none (part :: path) target := fun h => by cases h

theorem slot_object {part : String} {path : List String} {target : Value L} :
    Slot m (.object ref) (part :: path) target ↔
      ∃ value, (attrs m ref).get? part = some value ∧ Slot m value path target := by
  constructor
  · rintro ⟨⟩
    exact ⟨_, ‹_›, ‹_›⟩
  · rintro ⟨value, hget, h⟩
    exact .attr hget h

theorem slot_list {items : List (Value L)} {part : String} {path : List String}
    {target : Value L} : Slot m (.container .list items) (part :: path) target ↔
      ∃ (i : Nat) (value : Value L), part = toString i ∧ items[i]? = some value ∧
        Slot m value path target := by
  constructor
  · intro h
    cases h with
    | item _ hget h => exact ⟨_, _, rfl, hget, h⟩
  · rintro ⟨i, value, rfl, hget, h⟩
    exact .item (.inl rfl) hget h

theorem Slot.unique {value target target' : Value L} {path : List String}
    (h : Slot m value path target) (h' : Slot m value path target') : target = target' := by
  induction h with
  | here value => exact (slot_nil.mp h').symm
  | attr hget _ ih =>
    obtain ⟨_, hget', h'⟩ := slot_object.mp h'
    obtain rfl := Option.some.inj (hget.symm.trans hget')
    exact ih h'
  | entry hget _ ih =>
    cases h' with
    | entry hget' h' =>
      obtain rfl := Option.some.inj (hget.symm.trans hget')
      exact ih h'
    | item hkind => simp at hkind
  | @item kind items i value target path hkind hget _ ih =>
    obtain ⟨part, hpart⟩ : ∃ part, toString i = part := ⟨_, rfl⟩
    rw [hpart] at h'
    cases h' with
    | entry => simp at hkind
    | item _ hget' h' =>
      obtain rfl := Numerals.toString_inj hpart
      obtain rfl := Option.some.inj (hget.symm.trans hget')
      exact ih h'

theorem Grows.slot_of {value target : Value L} {path : List String} (h : Grows m m')
    (hc : Closed m) (hold : ∀ ref, value.Mentions ref → ref < m.length)
    (hs : Slot m' value path target) : Slot m value path target := by
  induction hs with
  | here value => exact .here value
  | @attr ref name value target path hget _ ih =>
    rw [h.attrs ref (hold ref (.object ref))] at hget
    exact .attr hget (ih fun ref' hr => hc ref name value hget ref' hr)
  | entry hget _ ih =>
    obtain ⟨front, back, hzip, -⟩ := List.lookup_eq_some_iff.mp hget
    have hm := List.of_mem_zip (hzip ▸ List.mem_append_right front (List.mem_cons_self ..))
    exact .entry hget (ih fun ref hr => hold ref (.item hm.2 hr))
  | item hkind hget _ ih =>
    exact .item hkind hget (ih fun ref hr => hold ref (.item (List.mem_of_getElem? hget) hr))

end Memory

end Objects
