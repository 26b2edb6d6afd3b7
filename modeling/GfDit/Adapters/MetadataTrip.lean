import GfDit.Adapters.EveryStep
import GfDit.Adapters.StateMetadata

/-!
# The round trip of a state's metadata

Packing leaves the source alone, takes out of the scheduler exactly the tensors
that `migration_extra_fields` lists, and a state is whole again after `assemble`
where the tensors on a device are attributes of the scheduler or items of a
plain list among them. The walks over the scheduler look no deeper, and never
into objects.
-/

namespace GfDit

namespace Codec

open Objects Memory

variable {T : Type} {m : Memory (Leaf T)} {value ref : Nat} {layout : OutputArtifactLayout}

/-- What the skeleton has in place of an attribute. -/
def skeletonAttr (attr : Held T) : Held T := (strippedAttr attr).getD attr

/-- No tensor that can be reached is on a device. -/
def OffDevice (m : Memory (Leaf T)) (held : Held T) : Prop :=
  ∀ t, Holds m held (.tensor t) → t.isCuda = false

-- ---------------------------------------------------------------------------
-- The skeleton of the scheduler
-- ---------------------------------------------------------------------------

theorem isCudaTensor_iff {held : Held T} :
    isCudaTensor held = true ↔ ∃ t, held = .leaf (.tensor t) ∧ t.isCuda = true := by
  unfold isCudaTensor
  split
  · simp
  · rename_i hne
    refine iff_of_false (by simp) ?_
    rintro ⟨t, rfl, -⟩
    exact hne t rfl

theorem skeletonAttr_tensor (t : DeviceTensor T) : skeletonAttr (.leaf (.tensor t)) =
    if t.isCuda then .none else .leaf (.tensor t) := by
  show (if t.isCuda then some Value.none else none).getD _ = _
  split <;> rfl

theorem skeletonAttr_list (items : List (Held T)) : skeletonAttr (.container .list items) =
    .container .list (items.map fun it => if isCudaTensor it then .none else it) := by
  show (if items.any isCudaTensor then _ else none).getD _ = _
  split
  · rfl
  · rename_i hany
    have hsame : ∀ it ∈ items, (if isCudaTensor it = true then Value.none else it) = it := by
      intro it hm
      exact if_neg fun hcuda => hany (List.any_eq_true.mpr ⟨it, hm, hcuda⟩)
    rw [List.map_congr_left hsame, List.map_id']
    rfl

/-- The guard repeats the walk and finds nothing. -/
theorem scanned_skeletonAttr (attr : Held T) :
    (scanned (skeletonAttr attr)).find? isCudaTensor = none := by
  rw [List.find?_eq_none]
  intro it hm
  match attr with
  | .leaf (.tensor t) =>
    rw [skeletonAttr_tensor] at hm
    split at hm
    · cases hm
    · rename_i hcuda
      obtain rfl := List.mem_singleton.mp hm
      exact hcuda
  | .container .list items =>
    rw [skeletonAttr_list] at hm
    obtain ⟨it', -, rfl⟩ := List.mem_map.mp hm
    split
    · exact nofun
    · assumption
  | .none | .leaf (.scalar _) | .object _ | .container .tuple _ | .container (.dict _) _ => cases hm

theorem get?_skeleton (attributes : Dict String (Held T)) (name : String) :
    (attributes.insertAll (strippedAttrs attributes)).get? name =
      (attributes.get? name).map skeletonAttr := by
  have hpairs : ∀ w, (name, w) ∈ strippedAttrs attributes →
      ∃ v, attributes.get? name = some v ∧ strippedAttr v = some w := by
    intro w hm
    obtain ⟨⟨key, v⟩, hentry, hmap⟩ := List.mem_filterMap.mp hm
    obtain ⟨w', hw, heq⟩ := Option.map_eq_some_iff.mp hmap
    cases heq
    exact ⟨v, attributes.get?_eq_some.mpr hentry, hw⟩
  cases hget : attributes.get? name with
  | none =>
    rw [Dict.get?_insertAll_of_not_mem, hget]
    · rfl
    · intro w hm
      obtain ⟨v, hv, -⟩ := hpairs w hm
      rw [hget] at hv
      cases hv
  | some v =>
    cases hs : strippedAttr v with
    | none =>
      rw [Dict.get?_insertAll_of_not_mem, hget, Option.map_some, skeletonAttr, hs]
      · rfl
      · intro w hm
        obtain ⟨v', hv, hw⟩ := hpairs w hm
        obtain rfl := Option.some.inj (hget.symm.trans hv)
        rw [hs] at hw
        cases hw
    | some w =>
      rw [Option.map_some, skeletonAttr, hs]
      refine Dict.get?_insertAll_of_mem ?_ ?_
      · exact List.mem_filterMap.mpr ⟨(name, v), attributes.get?_eq_some.mp hget, by simp [hs]⟩
      · intro w' hm
        obtain ⟨v', hv, hw⟩ := hpairs w' hm
        obtain rfl := Option.some.inj (hget.symm.trans hv)
        exact Option.some.inj (hw.symm.trans hs)

structure Skeleton (m : Memory (Leaf T)) (ref : Nat) (m' : Memory (Leaf T)) (skeleton : Nat) :
    Prop where
  grows : Grows m m'
  new : skeleton = m.length
  length : m'.length = m.length + 1
  attrs : ∀ name, (attrs m' skeleton).get? name = ((attrs m ref).get? name).map skeletonAttr

theorem schedulerSkeleton_object (m : Memory (Leaf T)) (ref : Nat) : ∃ m',
    schedulerSkeleton m (.object ref) = .ok (m', .object m.length) ∧
      Skeleton m ref m' m.length := by
  let m' := (m.alloc (m.attrs ref)).1.setattrs m.length (strippedAttrs (m.attrs ref))
  have hattrs : ∀ name, (attrs m' m.length).get? name =
      ((attrs m ref).get? name).map skeletonAttr := by
    intro name
    rw [attrs_setattrs_self (by rw [length_alloc]; exact Nat.lt_succ_self _), attrs_alloc_new,
      get?_skeleton]
  refine ⟨m', ?_, ((Grows.refl m).alloc _).setattrs le_rfl _, rfl, ?_, hattrs⟩
  · refine Except.bind_eq_ok.mpr ⟨⟨⟩, Except.forM_eq_ok.mpr fun entry hm => ?_, rfl⟩
    have hget : (attrs m' m.length).get? entry.1 = some entry.2 := Dict.get?_eq_some _ |>.mpr hm
    rw [hattrs] at hget
    obtain ⟨attr, -, heq⟩ := Option.map_eq_some_iff.mp hget
    rw [← heq, scanned_skeletonAttr]
    rfl
  · rw [length_setattrs, length_alloc]

theorem schedulerSkeleton_ok {scheduler skeleton : Held T} {m' : Memory (Leaf T)}
    (h : schedulerSkeleton m scheduler = .ok (m', skeleton)) :
    (scheduler = .none ∧ skeleton = .none ∧ m' = m) ∨
      ∃ ref, scheduler = .object ref ∧ skeleton = .object m.length ∧
        Skeleton m ref m' m.length := by
  match scheduler with
  | .none =>
    cases h
    exact .inl ⟨rfl, rfl, rfl⟩
  | .object ref =>
    obtain ⟨m₁, hok, hsk⟩ := schedulerSkeleton_object m ref
    cases h.symm.trans hok
    exact .inr ⟨ref, rfl, rfl, hsk⟩
  | .leaf _ | .container _ _ => cases h

-- ---------------------------------------------------------------------------
-- The skeleton of the state
-- ---------------------------------------------------------------------------

/-- The layouts of states: every field is one of the state's own, and none of
those that are treated apart. -/
def OwnFields (layout : OutputArtifactLayout) : Prop :=
  ∀ path ∈ declaredPaths layout, ∃ name, path = [name] ∧
    name ≠ "scheduler" ∧ name ≠ "device" ∧ name ≠ "request"

theorem dataclassesReplace_ok {changes : Dict String (Held T)} {m' : Memory (Leaf T)} {new : Nat}
    (h : dataclassesReplace m value changes = .ok (m', new)) :
    new = m.length ∧ m' = (m.alloc ((m.attrs value).insertAll changes.entries)).1 := by
  unfold dataclassesReplace at h
  split at h
  · cases h
  · cases h
    exact ⟨rfl, rfl⟩

theorem get?_replaced {changes : Dict String (Held T)} {m' : Memory (Leaf T)} {new : Nat}
    (h : dataclassesReplace m value changes = .ok (m', new)) (name : String) :
    (attrs m' new).get? name = (changes.get? name).or ((attrs m value).get? name) := by
  obtain ⟨rfl, rfl⟩ := dataclassesReplace_ok h
  rw [attrs_alloc_new, Dict.get?_insertAll_entries]

def requestParts (m : Memory (Leaf T)) (request : Held T) : List (Held T) :=
  match seededRequest m request with
  | none => [request]
  | some (ref, params) =>
    ((m.attrs ref).entries.filter (·.1 ≠ "sampling_params")).map Prod.snd ++
      ((m.attrs params).entries.filter (·.1 ≠ "generator")).map Prod.snd

theorem mem_others {attributes : Dict String (Held T)} {key : String} {part : Held T} :
    part ∈ (attributes.entries.filter (·.1 ≠ key)).map Prod.snd ↔
      ∃ name, name ≠ key ∧ attributes.get? name = some part := by
  simp only [List.mem_map, List.mem_filter, decide_eq_true_eq, Prod.exists, exists_eq_right,
    attributes.get?_eq_some]
  exact exists_congr fun name => and_comm

theorem seededRequest_some {request : Held T} {params : Nat}
    (h : seededRequest m request = some (ref, params)) :
    request = .object ref ∧ (attrs m ref).get? "sampling_params" = some (.object params) := by
  unfold seededRequest at h
  split at h
  · split at h
    · split at h
      · cases h
      · cases h
      · cases h
        exact ⟨rfl, ‹_›⟩
    · cases h
  · cases h

theorem seededRequest_grows {m' : Memory (Leaf T)} {request : Held T} (hg : Grows m m')
    (hc : Closed m) (hold : ∀ ref, request.Mentions ref → ref < m.length) :
    seededRequest m' request = seededRequest m request := by
  unfold seededRequest
  split
  · rename_i ref
    rw [hg.attrs ref (hold ref (.object ref))]
    split
    · rename_i params hget
      rw [hg.attrs params (hc ref _ _ hget params (.object params))]
    · rfl
  · rfl

/-- The generator is dropped from a new request. -/
structure Dropped (m : Memory (Leaf T)) (request : Held T) (root : Nat)
    (n n' : Memory (Leaf T)) : Prop where
  length : n.length ≤ n'.length
  others : ∀ ref < n.length, ref ≠ root → attrs n' ref = attrs n ref
  kept : ∀ name, name ≠ "request" → (attrs n' root).get? name = (attrs n root).get? name
  request : ∃ request', (attrs n' root).get? "request" = some request' ∧
    ∀ l, Holds n' request' l ↔ ∃ part ∈ requestParts m request, Holds m part l

theorem Dropped.grows {request : Held T} {root : Nat} {n n' : Memory (Leaf T)}
    (h : Dropped m request root n n') (hg : Grows m n) (hroot : m.length ≤ root) : Grows m n' :=
  ⟨hg.length.trans h.length, fun ref hr => by
    rw [h.others ref (hr.trans_le hg.length) (hr.trans_le hroot).ne, hg.attrs ref hr]⟩

/-- What the copy of a request holds, once the generator stays behind. -/
theorem holds_seeded {n : Memory (Leaf T)} {params cleanParams cleanRequest : Nat}
    (hc : Closed m) (hgrows : Grows m n)
    (hseed : seededRequest m (.object ref) = some (ref, params))
    (hrequest : ∀ name, (attrs n cleanRequest).get? name =
      if name = "sampling_params" then some (.object cleanParams) else (attrs m ref).get? name)
    (hparams : ∀ name, (attrs n cleanParams).get? name =
      if name = "generator" then some .none else (attrs m params).get? name) (l : Leaf T) :
    Holds n (.object cleanRequest) l ↔
      ∃ part ∈ requestParts m (.object ref), Holds m part l := by
  have hheld : ∀ {source name part}, (attrs m source).get? name = some part →
      (Holds n part l ↔ Holds m part l) := fun hget => hgrows.holds hc (hc _ _ _ hget)
  have hparts : ∀ part, part ∈ requestParts m (.object ref) ↔
      (∃ name, name ≠ "sampling_params" ∧ (attrs m ref).get? name = some part) ∨
        ∃ name, name ≠ "generator" ∧ (attrs m params).get? name = some part := by
    intro part
    rw [requestParts, hseed, List.mem_append, mem_others, mem_others]
  simp only [hparts]
  constructor
  · intro hl
    obtain ⟨name, v, hget, hl⟩ := holds_object.mp hl
    rw [hrequest] at hget
    split at hget
    · cases hget
      obtain ⟨name, v, hget, hl⟩ := holds_object.mp hl
      rw [hparams] at hget
      split at hget
      · cases hget
        exact absurd hl not_holds_none
      · rename_i hne
        exact ⟨v, .inr ⟨name, hne, hget⟩, (hheld hget).mp hl⟩
    · rename_i hne
      exact ⟨v, .inl ⟨name, hne, hget⟩, (hheld hget).mp hl⟩
  · rintro ⟨part, ⟨name, hne, hget⟩ | ⟨name, hne, hget⟩, hl⟩
    · refine .attr ((hrequest name).trans ?_) ((hheld hget).mpr hl)
      rw [if_neg hne, hget]
    · refine .attr ((hrequest "sampling_params").trans (if_pos rfl)) ?_
      refine .attr ((hparams name).trans ?_) ((hheld hget).mpr hl)
      rw [if_neg hne, hget]

/-- A new object with one attribute replaced. -/
theorem get?_replaced_one {m' : Memory (Leaf T)} {new : Nat} {changed : String} {held : Held T}
    (h : dataclassesReplace m value ((∅ : Dict String (Held T)).set changed held) = .ok (m', new))
    (name : String) :
    (attrs m' new).get? name =
      if name = changed then some held else (attrs m value).get? name := by
  rw [get?_replaced h, Dict.get?_set, Dict.get?_empty]
  by_cases hname : name = changed
  · rw [if_pos hname.symm, if_pos hname, Option.some_or]
  · rw [if_neg (Ne.symm hname), if_neg hname, Option.none_or]

theorem dropGenerator_ok {n n' : Memory (Leaf T)} {root : Nat} {request : Held T}
    (hc : Closed m) (hg : Grows m n) (hroot : m.length ≤ root) (hlt : root < n.length)
    (hreq : (attrs n root).get? "request" = some request)
    (hold : ∀ ref, request.Mentions ref → ref < m.length)
    (h : dropGenerator n root = .ok n') : Dropped m request root n n' := by
  unfold dropGenerator at h
  rw [hreq] at h
  simp only at h
  rw [seededRequest_grows hg hc hold] at h
  cases hseed : seededRequest m request with
  | none =>
    rw [hseed] at h
    cases h
    refine ⟨le_rfl, fun _ _ _ => rfl, fun _ _ => rfl, request, hreq, fun l => ?_⟩
    rw [hg.holds hc hold, requestParts, hseed]
    simp
  | some found =>
    obtain ⟨ref, params⟩ := found
    obtain ⟨rfl, hparams⟩ := seededRequest_some hseed
    have hrefOld : ref < m.length := hold ref (.object ref)
    have hparamsOld : params < m.length := hc ref _ _ hparams params (.object params)
    rw [hseed] at h
    obtain ⟨⟨n₁, cleanParams⟩, hfirst, h⟩ := Except.bind_eq_ok.mp h
    obtain ⟨⟨n₂, cleanRequest⟩, hsecond, h⟩ := Except.bind_eq_ok.mp h
    cases h
    have hfirstGet := get?_replaced_one hfirst
    have hsecondGet := get?_replaced_one hsecond
    obtain ⟨rfl, hn₁⟩ := dataclassesReplace_ok hfirst
    obtain ⟨rfl, hn₂⟩ := dataclassesReplace_ok hsecond
    have hlen₁ : n₁.length = n.length + 1 := by rw [hn₁, length_alloc]
    have hlen₂ : n₂.length = n.length + 2 := by rw [hn₂, length_alloc, hlen₁]
    have hold₁ : ∀ r < n.length, attrs n₁ r = attrs n r := fun r hr => by
      rw [hn₁, attrs_alloc_old hr]
    have hold₂ : ∀ r < n₁.length, attrs n₂ r = attrs n₁ r := fun r hr => by
      rw [hn₂, attrs_alloc_old hr]
    have hother : ∀ r, r ≠ root → attrs (n₂.setattr root "request" (.object n₁.length)) r =
        attrs n₂ r := fun r hr => attrs_setattr_ne hr.symm ..
    have hself := attrs_setattr_self (by omega : root < n₂.length) "request" (.object n₁.length)
    have hothers : ∀ r < n.length, r ≠ root →
        attrs (n₂.setattr root "request" (.object n₁.length)) r = attrs n r := fun r hr hne => by
      rw [hother r hne, hold₂ r (by omega), hold₁ r hr]
    have hgrows : Grows m (n₂.setattr root "request" (.object n₁.length)) :=
      ⟨by rw [length_setattr]; exact hg.length.trans (by omega), fun r hr => by
        rw [hothers r (hr.trans_le hg.length) (hr.trans_le hroot).ne, hg.attrs r hr]⟩
    refine ⟨?_, hothers, fun name hne => ?_, .object n₁.length, ?_, fun l => ?_⟩
    · rw [length_setattr]
      show n.length ≤ n₂.length
      omega
    · rw [hself, Dict.get?_set_ne _ (Ne.symm hne), hold₂ root (by omega), hold₁ root hlt]
    · rw [hself, Dict.get?_set_self]
    · have hrequest : ∀ name, (attrs (n₂.setattr root "request" (.object n₁.length))
          n₁.length).get? name = if name = "sampling_params" then some (.object n.length)
            else (attrs m ref).get? name := fun name => by
        rw [hother n₁.length (by omega), hsecondGet, hold₁ ref (hrefOld.trans_le hg.length),
          hg.attrs ref hrefOld]
      refine holds_seeded hc hgrows hseed hrequest (fun name => ?_) l
      rw [hother n.length (by omega), hold₂ n.length (by omega), hfirstGet,
        hg.attrs params hparamsOld]

/-- What packing makes of a state. -/
structure Packs (m : Memory (Leaf T)) (value : Nat) (layout : OutputArtifactLayout)
    (p : Pickle T) : Prop where
  grows : Grows m p.memory
  root_new : m.length ≤ p.root
  root_lt : p.root < p.memory.length
  scheduler : (schedulerOf m value = .none ∧
      (attrs p.memory p.root).get? "scheduler" = some .none) ∨
    ∃ ref skeleton, schedulerOf m value = .object ref ∧
      (attrs p.memory p.root).get? "scheduler" = some (.object skeleton) ∧
      m.length ≤ skeleton ∧ skeleton < p.root ∧
      ∀ name, (attrs p.memory skeleton).get? name = ((attrs m ref).get? name).map skeletonAttr
  device : (attrs p.memory p.root).get? "device" = some .none
  declared : ∀ name, [name] ∈ declaredPaths layout →
    (attrs p.memory p.root).get? name = some .none
  kept : ∀ name, name ≠ "scheduler" → name ≠ "device" → name ≠ "request" →
    [name] ∉ declaredPaths layout →
    (attrs p.memory p.root).get? name = (attrs m value).get? name
  request : ∃ request request', (attrs m value).get? "request" = some request ∧
    (attrs p.memory p.root).get? "request" = some request' ∧
    ∀ l, Holds p.memory request' l ↔ ∃ part ∈ requestParts m request, Holds m part l

theorem get?_nulled (hl : OwnFields layout) (name : String) :
    ((∅ : Dict String (Held T)).insertAll (layout.tensors.map fun field =>
      (field.fieldPath.head field.path_ne, Value.none))).get? name =
      if [name] ∈ declaredPaths layout then some .none else none := by
  split
  · rename_i hmem
    obtain ⟨field, hfield, hpath⟩ := List.mem_map.mp hmem
    refine Dict.get?_insertAll_of_mem (List.mem_map.mpr ⟨field, hfield, ?_⟩) fun v hv => ?_
    · simp only [hpath, List.head_cons]
    · obtain ⟨_, -, heq⟩ := List.mem_map.mp hv
      exact (Prod.mk.inj heq).2.symm
  · rename_i hnot
    rw [Dict.get?_insertAll_of_not_mem, Dict.get?_empty]
    intro v hv
    obtain ⟨field, hfield, heq⟩ := List.mem_map.mp hv
    have hmem : field.fieldPath ∈ declaredPaths layout := List.mem_map_of_mem hfield
    obtain ⟨name', hpath, -⟩ := hl _ hmem
    have hname : field.fieldPath.head field.path_ne = name := (Prod.mk.inj heq).1
    simp only [hpath, List.head_cons] at hname
    exact hnot (by rwa [← hname, ← hpath])

theorem packMetadata_ok {m' : Memory (Leaf T)} {p : Pickle T} (hc : Closed m)
    (hv : value < m.length) (hl : OwnFields layout)
    (h : packMetadata m value layout = .ok (m', p)) : m' = p.memory ∧ Packs m value layout p := by
  obtain ⟨_, -, h⟩ := Except.bind_eq_ok.mp h
  obtain ⟨⟨m₁, skeleton⟩, hsk, h⟩ := Except.bind_eq_ok.mp h
  obtain ⟨⟨m₂, root⟩, hrep, h⟩ := Except.bind_eq_ok.mp h
  obtain ⟨m₃, hdrop, h⟩ := Except.bind_eq_ok.mp h
  cases h
  refine ⟨rfl, ?_⟩
  have hgrows₁ : Grows m m₁ := by
    rcases schedulerSkeleton_ok hsk with ⟨-, -, rfl⟩ | ⟨_, -, -, hnew⟩
    · exact .refl _
    · exact hnew.grows
  have hget := get?_replaced hrep
  simp only [Dict.get?_set, get?_nulled hl, hgrows₁.attrs value hv] at hget
  obtain ⟨rfl, hm₂⟩ := dataclassesReplace_ok hrep
  have hgrows₂ : Grows m m₂ := hm₂ ▸ hgrows₁.alloc _
  have hlen₂ : m₂.length = m₁.length + 1 := by rw [hm₂, length_alloc]
  have hown : ∀ name, name = "scheduler" ∨ name = "device" ∨ name = "request" →
      [name] ∉ declaredPaths layout := by
    intro name hname hmem
    obtain ⟨name', hpath, hs, hd, hr⟩ := hl _ hmem
    obtain rfl : name = name' := List.head_eq_of_cons_eq hpath
    rcases hname with rfl | rfl | rfl
    · exact hs rfl
    · exact hd rfl
    · exact hr rfl
  have hrequest := hget "request"
  rw [if_neg (by decide), if_neg (by decide), if_neg (hown _ (.inr (.inr rfl))),
    Option.none_or] at hrequest
  cases hreq : (attrs m value).get? "request" with
  | none =>
    rw [hreq] at hrequest
    unfold dropGenerator at hdrop
    rw [hrequest] at hdrop
    cases hdrop
  | some request =>
    have hdropped := dropGenerator_ok hc hgrows₂ hgrows₁.length (by omega) (hrequest.trans hreq)
      (hc value _ _ hreq) hdrop
    have hkept : ∀ name, name ≠ "request" → (attrs m' m₁.length).get? name =
        (if "scheduler" = name then some skeleton else if "device" = name then some .none
          else if [name] ∈ declaredPaths layout then some .none else none).or
          ((attrs m value).get? name) := fun name hne => (hdropped.kept name hne).trans (hget name)
    refine ⟨hdropped.grows hgrows₂ hgrows₁.length, hgrows₁.length,
      ?_, ?_, ?_, fun name hmem => ?_, fun name hs hd hr hnot => ?_, request, ?_⟩
    · have hlen := hdropped.length
      show m₁.length < m'.length
      omega
    · have hsched := hkept "scheduler" (by decide)
      rw [if_pos rfl, Option.some_or] at hsched
      rcases schedulerSkeleton_ok hsk with ⟨hnone, rfl, -⟩ | ⟨ref, href, rfl, hnew⟩
      · exact .inl ⟨hnone, hsched⟩
      · refine .inr ⟨ref, m.length, href, hsched, le_rfl, ?_, fun name => ?_⟩
        · show m.length < m₁.length
          rw [hnew.length]
          exact Nat.lt_succ_self _
        · have hlt : m.length < m₁.length := by rw [hnew.length]; exact Nat.lt_succ_self _
          rw [hdropped.others _ (by omega) hlt.ne, hm₂, attrs_alloc_old hlt, hnew.attrs]
    · have hdev := hkept "device" (by decide)
      rwa [if_neg (by decide), if_pos rfl, Option.some_or] at hdev
    · obtain ⟨name', hpath, hs, hd, hr⟩ := hl _ hmem
      obtain rfl : name = name' := List.head_eq_of_cons_eq hpath
      have hdecl := hkept name hr
      rwa [if_neg (Ne.symm hs), if_neg (Ne.symm hd), if_pos hmem, Option.some_or] at hdecl
    · have hother := hkept name hr
      rwa [if_neg (Ne.symm hs), if_neg (Ne.symm hd), if_neg hnot, Option.none_or] at hother
    · obtain ⟨request', hget', hholds⟩ := hdropped.request
      exact ⟨request', hreq, hget', hholds⟩

-- ---------------------------------------------------------------------------
-- What is in the pickle
-- ---------------------------------------------------------------------------

def unwalked : Held T → List (Held T)
  | .leaf _ => []
  | .container .list items => items.filter fun
    | .leaf _ => false
    | _ => true
  | attr => [attr]

/-- Tensors on a device are declared, or attributes of the scheduler, or items
of plain lists among these. -/
structure ShallowTensors (m : Memory (Leaf T)) (value : Nat) (layout : OutputArtifactLayout) :
    Prop where
  state : ∀ name held, (attrs m value).get? name = some held → name ≠ "scheduler" →
    name ≠ "device" → name ≠ "request" → [name] ∉ declaredPaths layout → OffDevice m held
  request : ∀ request, (attrs m value).get? "request" = some request →
    ∀ part ∈ requestParts m request, OffDevice m part
  scheduler : ∀ ref name attr, schedulerOf m value = .object ref →
    (attrs m ref).get? name = some attr → ∀ part ∈ unwalked attr, OffDevice m part

theorem offDevice_leaf {l : Leaf T} :
    OffDevice m (.leaf l) ↔ isCudaTensor (.leaf l : Held T) = false := by
  cases l with
  | scalar text => exact iff_of_true (fun t ht => by cases holds_leaf.mp ht) rfl
  | tensor t =>
    refine ⟨fun h => h t (.leaf _), fun h t' ht => ?_⟩
    cases holds_leaf.mp ht
    exact h

theorem offDevice_skeletonAttr {attr : Held T} :
    OffDevice m (skeletonAttr attr) ↔ ∀ part ∈ unwalked attr, OffDevice m part := by
  have hnone : OffDevice m (.none : Held T) := fun t ht => absurd ht not_holds_none
  have hlooked : ∀ l : Leaf T, OffDevice m
      (if isCudaTensor (.leaf l) then .none else .leaf l : Held T) := by
    intro l
    split
    · exact hnone
    · rename_i hcuda
      exact offDevice_leaf.mpr (Bool.eq_false_iff.mpr hcuda)
  have hself : OffDevice m attr ↔ ∀ part ∈ [attr], OffDevice m part := by simp
  cases attr with
  | none => exact hself
  | object ref => exact hself
  | leaf l =>
    refine iff_of_true ?_ fun _ hm => by cases hm
    cases l with
    | scalar text => exact hlooked (.scalar text)
    | tensor t =>
      rw [skeletonAttr_tensor]
      exact hlooked (.tensor t)
  | container kind items =>
    cases kind with
    | tuple => exact hself
    | dict keys => exact hself
    | list =>
      rw [skeletonAttr_list]
      constructor
      · intro hoff part hpart t ht
        obtain ⟨hm, hleaf⟩ := List.mem_filter.mp hpart
        refine hoff t (.item (List.mem_map_of_mem hm) ?_)
        cases part with
        | leaf l => cases hleaf
        | none | container _ _ | object _ => exact ht
      · intro hoff t ht
        obtain ⟨_, hm, ht⟩ := holds_container.mp ht
        obtain ⟨it, hit, rfl⟩ := List.mem_map.mp hm
        cases it with
        | leaf l => exact hlooked l t ht
        | none => exact hnone t ht
        | container _ _ => exact hoff _ (List.mem_filter.mpr ⟨hit, rfl⟩) t ht
        | object _ => exact hoff _ (List.mem_filter.mpr ⟨hit, rfl⟩) t ht

theorem mentions_skeletonAttr {attr : Held T} (h : (skeletonAttr attr).Mentions ref) :
    attr.Mentions ref := by
  match attr with
  | .leaf (.tensor t) =>
    rw [skeletonAttr_tensor] at h
    split at h
    · cases h
    · exact h
  | .container .list items =>
    rw [skeletonAttr_list, Value.mentions_container] at h
    obtain ⟨_, hm, h⟩ := h
    obtain ⟨it, hit, rfl⟩ := List.mem_map.mp hm
    split at h
    · cases h
    · exact .item hit h
  | .none | .leaf (.scalar _) | .object _ | .container .tuple _ | .container (.dict _) _ => exact h

theorem schedulerOf_object (h : schedulerOf m value = .object ref) :
    (attrs m value).get? "scheduler" = some (.object ref) := by
  unfold schedulerOf at h
  cases hget : (attrs m value).get? "scheduler" with
  | none =>
    rw [hget] at h
    cases h
  | some held =>
    rw [hget] at h
    exact congrArg some h

theorem Packs.offDevice_iff {p : Pickle T} (hp : Packs m value layout p) (hc : Closed m) :
    OffDevice p.memory (.object p.root) ↔ ShallowTensors m value layout := by
  obtain ⟨request, request', hreq, hreq', hholds⟩ := hp.request
  constructor
  · intro hoff
    refine ⟨fun name held hget hs hd hr hnot t ht => ?_, fun other hget part hpart t ht => ?_,
      fun ref name attr href hget => offDevice_skeletonAttr.mp fun t ht => ?_⟩
    · refine hoff t (.attr ((hp.kept name hs hd hr hnot).trans hget) ?_)
      exact hp.grows.holds_mono hc (hc _ _ _ hget) ht
    · obtain rfl := Option.some.inj (hreq.symm.trans hget)
      exact hoff t (.attr hreq' ((hholds _).mpr ⟨part, hpart, ht⟩))
    · rcases hp.scheduler with ⟨hnone, -⟩ | ⟨ref', skeleton, href', hsk, -, -, hattrs⟩
      · rw [hnone] at href
        cases href
      · cases href.symm.trans href'
        refine hoff t (.attr hsk (.attr ((hattrs name).trans (by rw [hget]; rfl)) ?_))
        exact hp.grows.holds_mono hc (fun r hr => hc _ _ _ hget r (mentions_skeletonAttr hr)) ht
  · intro hshallow t ht
    obtain ⟨name, held, hget, ht⟩ := holds_object.mp ht
    by_cases hs : name = "scheduler"
    · subst hs
      rcases hp.scheduler with ⟨-, hnone⟩ | ⟨ref, skeleton, href, hsk, -, -, hattrs⟩
      · cases hnone.symm.trans hget
        exact absurd ht not_holds_none
      · cases hsk.symm.trans hget
        obtain ⟨name, held, hget, ht⟩ := holds_object.mp ht
        rw [hattrs] at hget
        obtain ⟨attr, hattr, rfl⟩ := Option.map_eq_some_iff.mp hget
        refine offDevice_skeletonAttr.mpr (hshallow.scheduler ref name attr href hattr) t ?_
        exact hp.grows.holds_of hc (fun r hr => hc _ _ _ hattr r (mentions_skeletonAttr hr)) ht
    · by_cases hd : name = "device"
      · subst hd
        cases hp.device.symm.trans hget
        exact absurd ht not_holds_none
      · by_cases hr : name = "request"
        · subst hr
          cases hreq'.symm.trans hget
          obtain ⟨part, hpart, ht⟩ := (hholds _).mp ht
          exact hshallow.request request hreq part hpart t ht
        · by_cases hdecl : [name] ∈ declaredPaths layout
          · cases (hp.declared name hdecl).symm.trans hget
            exact absurd ht not_holds_none
          · have hsame := (hp.kept name hs hd hr hdecl).symm.trans hget
            exact hshallow.state name held hsame hs hd hr hdecl t
              (hp.grows.holds_of hc (hc _ _ _ hsame) ht)

-- ---------------------------------------------------------------------------
-- The tensors that travel by themselves
-- ---------------------------------------------------------------------------

theorem mem_deviceSlots {name : String} {attr : Held T} {path : List String}
    {t : DeviceTensor T} : (path, t) ∈ deviceSlots name attr ↔ t.isCuda = true ∧
      ((attr = .leaf (.tensor t) ∧ path = ["scheduler", name]) ∨
        ∃ (items : List (Held T)) (i : Nat), attr = .container .list items ∧
          items[i]? = some (.leaf (.tensor t)) ∧ path = ["scheduler", name, toString i]) := by
  match attr with
  | .leaf (.tensor t') =>
    simp only [deviceSlots]
    split
    · rename_i hcuda
      simp only [List.mem_singleton, Prod.mk.injEq]
      constructor
      · rintro ⟨rfl, rfl⟩
        exact ⟨hcuda, .inl ⟨rfl, rfl⟩⟩
      · rintro ⟨-, ⟨heq, rfl⟩ | ⟨_, _, heq, -⟩⟩
        · cases heq
          exact ⟨rfl, rfl⟩
        · cases heq
    · rename_i hcuda
      refine iff_of_false List.not_mem_nil ?_
      rintro ⟨ht, ⟨heq, -⟩ | ⟨_, _, heq, -⟩⟩
      · cases heq
        exact hcuda ht
      · cases heq
  | .container .list items =>
    simp only [deviceSlots, List.mem_filterMap, Prod.exists, List.mk_mem_zipIdx_iff_getElem?]
    constructor
    · rintro ⟨it, i, hget, hslot⟩
      split at hslot
      · split at hslot
        · cases hslot
          exact ⟨‹_›, .inr ⟨items, i, rfl, hget, rfl⟩⟩
        · cases hslot
      · cases hslot
    · rintro ⟨hcuda, ⟨heq, -⟩ | ⟨_, i, heq, hget, rfl⟩⟩
      · cases heq
      · cases heq
        exact ⟨_, i, hget, if_pos hcuda⟩
  | .none | .leaf (.scalar _) | .object _ | .container .tuple _ | .container (.dict _) _ =>
    refine iff_of_false List.not_mem_nil ?_
    rintro ⟨-, ⟨heq, -⟩ | ⟨_, _, heq, -⟩⟩
    · cases heq
    · cases heq

theorem slotFields_ok {slots : List (List String × DeviceTensor T)}
    (hne : ∀ slot ∈ slots, slot.1 ≠ []) : ∃ fields,
      slots.mapM (fun slot => replicatedTensorField slot.1 slot.2.shape slot.2.dtype) =
        .ok fields ∧ fields.map TensorFieldLayout.fieldPath = slots.map Prod.fst := by
  induction slots with
  | nil => exact ⟨[], rfl, rfl⟩
  | cons slot slots ih =>
    obtain ⟨hslot, hslots⟩ := List.forall_mem_cons.mp hne
    obtain ⟨fields, hfields, hpaths⟩ := ih hslots
    rw [List.mapM_cons, replicatedTensorField_ok hslot slot.2.dtype_ne, hfields]
    exact ⟨_, rfl, congrArg _ hpaths⟩

/-- The field paths of the scheduler's tensors on a device. -/
def ExtraSlot (m : Memory (Leaf T)) (value : Nat) (path : List String) (t : DeviceTensor T) :
    Prop :=
  ∃ ref name attr, schedulerOf m value = .object ref ∧ (attrs m ref).get? name = some attr ∧
    (path, t) ∈ deviceSlots name attr

theorem ExtraSlot.not_declared {path : List String} {t : DeviceTensor T} (hl : OwnFields layout)
    (h : ExtraSlot m value path t) : path ∉ declaredPaths layout := by
  obtain ⟨ref, name, attr, -, -, hmem⟩ := h
  intro hdecl
  obtain ⟨name', rfl, -⟩ := hl path hdecl
  rcases (mem_deviceSlots.mp hmem).2 with ⟨-, hpath⟩ | ⟨_, _, -, -, hpath⟩
  · cases hpath
  · cases hpath

theorem migrationExtraFields_ok {p : Pickle T} (hl : OwnFields layout)
    (hp : Packs m value layout p) : ∃ extra, migrationExtraFields m value layout = .ok extra ∧
      ∀ path, path ∈ extra.map TensorFieldLayout.fieldPath ↔ ∃ t, ExtraSlot m value path t := by
  rcases hp.scheduler with ⟨hnone, -⟩ | ⟨ref, -, href, -⟩
  · refine ⟨[], by rw [migrationExtraFields, hnone]; rfl, fun path => ?_⟩
    refine iff_of_false List.not_mem_nil ?_
    rintro ⟨t, ref, _, _, href, -⟩
    rw [hnone] at href
    cases href
  · have hslots : ∀ path t, (path, t) ∈ (m.attrs ref).entries.flatMap
        (fun entry => deviceSlots entry.1 entry.2) ↔ ExtraSlot m value path t := by
      intro path t
      rw [List.mem_flatMap]
      constructor
      · rintro ⟨entry, hm, h⟩
        exact ⟨ref, entry.1, entry.2, href, (attrs m ref).get?_eq_some.mpr hm, h⟩
      · rintro ⟨ref', name, attr, href', hget, h⟩
        cases href.symm.trans href'
        exact ⟨(name, attr), (attrs m ref).get?_eq_some.mp hget, h⟩
    have hpath : ∀ slot ∈ (m.attrs ref).entries.flatMap
        (fun entry => deviceSlots entry.1 entry.2), slot.1 ≠ [] := by
      intro slot hm hnil
      obtain ⟨_, _, _, _, _, hslot⟩ := (hslots slot.1 slot.2).mp hm
      rw [hnil] at hslot
      rcases (mem_deviceSlots.mp hslot).2 with ⟨-, h⟩ | ⟨_, _, -, -, h⟩
      · cases h
      · cases h
    obtain ⟨fields, hfields, hpaths⟩ := slotFields_ok hpath
    have hmem : ∀ path, path ∈ fields.map TensorFieldLayout.fieldPath ↔
        ∃ t, ExtraSlot m value path t := by
      intro path
      rw [hpaths, List.mem_map]
      constructor
      · rintro ⟨slot, hm, rfl⟩
        exact ⟨slot.2, (hslots _ _).mp hm⟩
      · rintro ⟨t, h⟩
        exact ⟨(path, t), (hslots path t).mpr h, rfl⟩
    refine ⟨fields, ?_, hmem⟩
    rw [migrationExtraFields, href]
    refine Except.bind_eq_ok.mpr ⟨fields, hfields, congrArg _ ?_⟩
    refine List.filter_eq_self.mpr fun field hm => decide_eq_true ?_
    obtain ⟨t, h⟩ := (hmem _).mp (List.mem_map_of_mem hm)
    exact h.not_declared hl

def Nulled (m : Memory (Leaf T)) (value : Nat) (p : Pickle T) (path : List String) : Prop :=
  ∃ rest held, path = "scheduler" :: rest ∧ Slot m (.object value) path held ∧ held ≠ .none ∧
    Slot p.memory (.object p.root) path .none

theorem Packs.not_nulled {p : Pickle T} {held target : Held T} {path : List String}
    (hp : Packs m value layout p) (hc : Closed m)
    (hold : ∀ ref, held.Mentions ref → ref < m.length) (hslot : Slot m held path target)
    (hnull : Slot p.memory held path .none) : target = .none :=
  hslot.unique (hp.grows.slot_of hc hold hnull)

theorem Packs.extraSlot_of_nulled {p : Pickle T} {attr held : Held T} {name : String}
    {rest : List String} (hp : Packs m value layout p) (hc : Closed m)
    (href : schedulerOf m value = .object ref) (hget : (attrs m ref).get? name = some attr)
    (hslot : Slot m attr rest held) (hne : held ≠ .none)
    (hnull : Slot p.memory (skeletonAttr attr) rest .none) :
    ∃ t, ExtraSlot m value ("scheduler" :: name :: rest) t := by
  have hold := hc ref name attr hget
  match attr with
  | .leaf (.tensor t) =>
    rw [skeletonAttr_tensor] at hnull
    split at hnull
    · rename_i hcuda
      cases rest with
      | nil => exact ⟨t, ref, name, _, href, hget, mem_deviceSlots.mpr ⟨hcuda, .inl ⟨rfl, rfl⟩⟩⟩
      | cons part rest => exact absurd hnull not_slot_none
    · exact absurd (hp.not_nulled hc hold hslot hnull) hne
  | .container .list items =>
    rw [skeletonAttr_list] at hnull
    cases rest with
    | nil => cases slot_nil.mp hnull
    | cons part rest =>
      obtain ⟨i, it, rfl, hit, hslot⟩ := slot_list.mp hslot
      obtain ⟨j, it', hpart, hit', hnull⟩ := slot_list.mp hnull
      obtain rfl := Numerals.toString_inj hpart
      rw [List.getElem?_map, hit] at hit'
      cases hit'
      simp only at hnull
      split at hnull
      · rename_i hcuda
        obtain ⟨t, rfl, hcuda⟩ := isCudaTensor_iff.mp hcuda
        cases rest with
        | nil => exact ⟨t, ref, name, _, href, hget,
            mem_deviceSlots.mpr ⟨hcuda, .inr ⟨items, i, rfl, hit, rfl⟩⟩⟩
        | cons part rest => exact absurd hnull not_slot_none
      · refine absurd (hp.not_nulled hc (fun r hr => hold r ?_) hslot hnull) hne
        exact .item (List.mem_of_getElem? hit) hr
  | .none | .leaf (.scalar _) | .object _ | .container .tuple _ | .container (.dict _) _ =>
    exact absurd (hp.not_nulled hc hold hslot hnull) hne

/-- Exactly the listed tensors are taken out of the scheduler. -/
theorem Packs.nulled_iff {p : Pickle T} (hp : Packs m value layout p) (hc : Closed m)
    (path : List String) : Nulled m value p path ↔ ∃ t, ExtraSlot m value path t := by
  constructor
  · rintro ⟨rest, held, rfl, hslot, hne, hnull⟩
    obtain ⟨scheduler, hget, hslot⟩ := slot_object.mp hslot
    obtain ⟨scheduler', hget', hnull⟩ := slot_object.mp hnull
    rcases hp.scheduler with ⟨hnone, -⟩ | ⟨ref, skeleton, href, hsk, -, -, hattrs⟩
    · rw [schedulerOf, hget] at hnone
      cases hnone
      cases rest with
      | nil => exact absurd (slot_nil.mp hslot) hne
      | cons part rest => exact absurd hslot not_slot_none
    · cases (schedulerOf_object href).symm.trans hget
      cases hsk.symm.trans hget'
      cases rest with
      | nil => cases slot_nil.mp hnull
      | cons name rest =>
        obtain ⟨attr, hattr, hslot⟩ := slot_object.mp hslot
        obtain ⟨attr', hattr', hnull⟩ := slot_object.mp hnull
        rw [hattrs, hattr] at hattr'
        cases hattr'
        exact hp.extraSlot_of_nulled hc href hattr hslot hne hnull
  · rintro ⟨t, ref, name, attr, href, hget, hmem⟩
    have hsched := schedulerOf_object href
    rcases hp.scheduler with ⟨hnone, -⟩ | ⟨ref', skeleton, href', hsk, -, -, hattrs⟩
    · rw [hnone] at href
      cases href
    cases href.symm.trans href'
    have hattr : (attrs p.memory skeleton).get? name = some (skeletonAttr attr) :=
      (hattrs name).trans (by rw [hget]; rfl)
    obtain ⟨hcuda, ⟨rfl, rfl⟩ | ⟨items, i, rfl, hit, rfl⟩⟩ := mem_deviceSlots.mp hmem
    · rw [skeletonAttr_tensor, if_pos hcuda] at hattr
      exact ⟨_, _, rfl, .attr hsched (.attr hget (.here _)), nofun,
        .attr hsk (.attr hattr (.here _))⟩
    · rw [skeletonAttr_list] at hattr
      refine ⟨_, _, rfl, .attr hsched (.attr hget (.item (.inl rfl) hit (.here _))), nofun,
        .attr hsk (.attr hattr (.item (.inl rfl) ?_ (.here _)))⟩
      rw [List.getElem?_map, hit]
      exact congrArg some (if_pos hcuda)

-- ---------------------------------------------------------------------------
-- Reading at a path
-- ---------------------------------------------------------------------------

theorem indexOf_toString {kind : String} {length i : Nat} (h : i < length) :
    indexOf kind length (toString i) = .ok i := by
  unfold indexOf
  rw [Numerals.readInt_toString]
  simp only [if_neg (Int.not_lt.mpr (Int.natCast_nonneg i))]
  rw [if_pos ⟨Int.natCast_nonneg i, mod_cast h⟩, Int.toNat_natCast]
  rfl

theorem getPart_object {name : String} {held : Held T} (hget : (attrs m ref).get? name = some held) :
    getPart m (.object ref) name = .ok held := by
  rw [getPart, hget]
  rfl

theorem getPart_list {items : List (Held T)} {i : Nat} {it : Held T} (hget : items[i]? = some it) :
    getPart m (.container .list items) (toString i) = .ok it := by
  have hlt := (List.getElem?_eq_some_iff.mp hget).1
  rw [getPart, indexOf_toString hlt, Except.ok_bind, List.getD_eq_getElem?_getD, hget]
  rfl

theorem readField_cons (held : Held T) (part : String) (path : List String) :
    readField m held (part :: path) = (getPart m held part >>= fun inner => readField m inner path) :=
  List.foldlM_cons ..

theorem readField_own {name : String} {held : Held T}
    (hget : (attrs m value).get? name = some held) : readField m (.object value) [name] = .ok held := by
  rw [readField_cons, getPart_object hget]
  rfl

theorem readField_own_eq {name : String} {held : Held T}
    (h : readField m (.object value) [name] = .ok held) : (attrs m value).get? name = some held := by
  cases hget : (attrs m value).get? name with
  | none =>
    rw [readField_cons, getPart, hget] at h
    cases h
  | some held' =>
    rw [readField_own hget] at h
    exact congrArg some (Except.ok.inj h)

theorem ExtraSlot.readField {path : List String} {t : DeviceTensor T}
    (h : ExtraSlot m value path t) : readField m (.object value) path = .ok (.leaf (.tensor t)) := by
  obtain ⟨ref, name, attr, href, hget, hmem⟩ := h
  obtain ⟨-, ⟨rfl, rfl⟩ | ⟨items, i, rfl, hit, rfl⟩⟩ := mem_deviceSlots.mp hmem
  · rw [readField_cons, getPart_object (schedulerOf_object href), Except.ok_bind, readField_own hget]
  · rw [readField_cons, getPart_object (schedulerOf_object href), Except.ok_bind, readField_cons,
      getPart_object hget, Except.ok_bind, readField_cons, getPart_list hit]
    rfl

-- ---------------------------------------------------------------------------
-- Filling in
-- ---------------------------------------------------------------------------

/-- A value at a path once the tensors at the paths of `done` are back. -/
def filled (dst : Device) (done : List (List String)) (path : List String) (held : Held T) :
    Held T :=
  if isCudaTensor held then
    if path ∈ done then tensorTreeToDevice held dst else .none
  else held

def filledAttr (dst : Device) (done : List (List String)) (name : String) : Held T → Held T
  | .container .list items => .container .list <|
      items.mapIdx fun i it => filled dst done ["scheduler", name, toString i] it
  | attr => filled dst done ["scheduler", name] attr

theorem filledAttr_nil (dst : Device) (name : String) (attr : Held T) :
    filledAttr dst [] name attr = skeletonAttr attr := by
  match attr with
  | .leaf (.tensor t) => rw [skeletonAttr_tensor]; rfl
  | .container .list items =>
    rw [skeletonAttr_list, filledAttr]
    congr 1
    refine List.ext_getElem? fun i => ?_
    rw [List.getElem?_mapIdx, List.getElem?_map]
    rfl
  | .none | .leaf (.scalar _) | .object _ | .container .tuple _ | .container (.dict _) _ => rfl

theorem onto_onto (dst dst' : Device) (l : Leaf T) : (l.onto dst).onto dst' = l.onto dst' := by
  cases l <;> rfl

theorem tensorTreeToDevice_twice (held : Held T) (dst dst' : Device) :
    tensorTreeToDevice (tensorTreeToDevice held dst) dst' = tensorTreeToDevice held dst' := by
  rw [tensorTreeToDevice, tensorTreeToDevice, Value.mapLeaves_mapLeaves]
  exact congrArg (fun f => Value.mapLeaves f held) (funext fun l => onto_onto dst dst' l)

theorem filled_moved {dst : Device} {done : List (List String)} {path : List String}
    {held : Held T} (h : isCudaTensor held = true → path ∈ done) :
    tensorTreeToDevice (filled dst done path held) dst = tensorTreeToDevice held dst := by
  unfold filled
  split
  · rename_i hcuda
    rw [if_pos (h hcuda), tensorTreeToDevice_twice]
  · rfl

/-- Once all tensors are back and everything is moved, an attribute is whole. -/
theorem filledAttr_moved {dst : Device} {done : List (List String)} {name : String}
    {attr : Held T} (h : ∀ path t, (path, t) ∈ deviceSlots name attr → path ∈ done) :
    tensorTreeToDevice (filledAttr dst done name attr) dst = tensorTreeToDevice attr dst := by
  have hown : ∀ it : Held T, attr = it → isCudaTensor it = true → ["scheduler", name] ∈ done := by
    rintro it rfl hcuda
    obtain ⟨t, rfl, hcuda⟩ := isCudaTensor_iff.mp hcuda
    exact h _ t (mem_deviceSlots.mpr ⟨hcuda, .inl ⟨rfl, rfl⟩⟩)
  unfold filledAttr
  split
  · rename_i items
    simp only [tensorTreeToDevice, Value.mapLeaves_container]
    congr 1
    refine List.ext_getElem? fun i => ?_
    rw [List.getElem?_map, List.getElem?_mapIdx, List.getElem?_map]
    cases hit : items[i]? with
    | none => rfl
    | some it =>
      refine congrArg some (filled_moved fun hcuda => ?_)
      obtain ⟨t, rfl, hcuda⟩ := isCudaTensor_iff.mp hcuda
      exact h _ t (mem_deviceSlots.mpr ⟨hcuda, .inr ⟨items, i, rfl, hit, rfl⟩⟩)
  · exact filled_moved (hown _ rfl)

-- ---------------------------------------------------------------------------
-- Putting together
-- ---------------------------------------------------------------------------

/-- The tensors that arrive: those of the source at the listed paths, moved. -/
structure Sent (m : Memory (Leaf T)) (value : Nat) (paths : List (List String)) (dst : Device)
    (tensors : Dict (List String) (DeviceTensor T)) : Prop where
  paths : ∀ path, path ∈ paths ↔ ∃ t, tensors.get? path = some t
  moved : ∀ path t, tensors.get? path = some t →
    ∃ s, readField m (.object value) path = .ok (.leaf (.tensor s)) ∧ t = s.onto dst

/-- Only the attributes of one object changed, and all as `f` says. -/
structure Rewrites (m : Memory (Leaf T)) (ref : Nat) (f : String → Option (Held T))
    (m' : Memory (Leaf T)) : Prop where
  length : m'.length = m.length
  others : ∀ other, other ≠ ref → attrs m' other = attrs m other
  attrs : ∀ name, (attrs m' ref).get? name = f name

theorem injectTensorFields_ok {root : Nat} {tensors : Dict (List String) (DeviceTensor T)}
    {fields : List TensorFieldLayout} (hroot : root < m.length)
    (hown : ∀ field ∈ fields, ∃ name, field.fieldPath = [name])
    (hsent : ∀ field ∈ fields, ∃ t, tensors.get? field.fieldPath = some t) :
    ∃ m', injectTensorFields m root tensors fields = .ok m' ∧
      Rewrites m root (fun name => if [name] ∈ fields.map TensorFieldLayout.fieldPath then
        (tensors.get? [name]).map fun t => .leaf (.tensor t) else (attrs m root).get? name) m' := by
  induction fields generalizing m with
  | nil => exact ⟨m, rfl, rfl, fun _ _ => rfl, fun name => (if_neg List.not_mem_nil).symm⟩
  | cons field fields ih =>
    obtain ⟨hfield, hfields⟩ := List.forall_mem_cons.mp hown
    obtain ⟨hhere, hrest⟩ := List.forall_mem_cons.mp hsent
    obtain ⟨name, hpath⟩ := hfield
    obtain ⟨t, ht⟩ := hhere
    obtain ⟨m', hok, hm'⟩ := ih (m := m.setattr root name (.leaf (.tensor t)))
      (by rwa [length_setattr]) hfields hrest
    refine ⟨m', ?_, hm'.length.trans (length_setattr ..), fun other hne => ?_, fun other => ?_⟩
    · rw [injectTensorFields, List.foldlM_cons, ht, hpath]
      exact hok
    · rw [hm'.others other hne, attrs_setattr_ne (Ne.symm hne)]
    · rw [hm'.attrs, attrs_setattr_self hroot, List.map_cons, hpath]
      by_cases hlater : [other] ∈ fields.map TensorFieldLayout.fieldPath
      · rw [if_pos hlater, if_pos (List.mem_cons_of_mem _ hlater)]
      · rw [if_neg hlater, Dict.get?_set]
        by_cases heq : name = other
        · subst heq
          rw [if_pos rfl, if_pos (List.mem_cons_self ..), ← hpath, ht]
          rfl
        · rw [if_neg heq, if_neg]
          rintro hmem
          rcases List.mem_cons.mp hmem with h | h
          · exact heq (List.head_eq_of_cons_eq h).symm
          · exact hlater h

structure Filling (m : Memory (Leaf T)) (ref root skeleton : Nat) (dst : Device)
    (start : Memory (Leaf T)) (done : List (List String)) (n : Memory (Leaf T)) : Prop where
  length : n.length = start.length
  others : ∀ other, other ≠ root → other ≠ skeleton → attrs n other = attrs start other
  root : ∀ name, (attrs n root).get? name = (attrs start root).get? name
  parts : ∀ name, (attrs n skeleton).get? name =
    ((attrs m ref).get? name).map (filledAttr dst done name)

theorem filled_cons_ne {dst : Device} {done : List (List String)} {path other : List String}
    (h : path ≠ other) (held : Held T) :
    filled dst (other :: done) path held = filled dst done path held := by
  unfold filled
  simp only [List.mem_cons, h, false_or]

theorem filledAttr_cons_ne {dst : Device} {done : List (List String)} {name other : String}
    {rest : List String} (h : name ≠ other) (attr : Held T) :
    filledAttr dst (("scheduler" :: other :: rest) :: done) name attr =
      filledAttr dst done name attr := by
  have hne : ∀ more : List String, "scheduler" :: name :: more ≠ "scheduler" :: other :: rest := by
    intro more heq
    exact h (List.head_eq_of_cons_eq (List.tail_eq_of_cons_eq heq))
  unfold filledAttr
  split
  · simp only [filled_cons_ne (hne _)]
  · exact filled_cons_ne (hne []) _

theorem filled_tensor {dst : Device} {done : List (List String)} {path : List String}
    {t : DeviceTensor T} (hcuda : t.isCuda = true) (hm : path ∈ done) :
    filled dst done path (.leaf (.tensor t)) = .leaf (.tensor (t.onto dst)) := by
  rw [filled, if_pos (isCudaTensor_iff.mpr ⟨t, rfl, hcuda⟩), if_pos hm, tensorTreeToDevice,
    Value.mapLeaves_leaf]
  rfl

theorem set_mapIdx_filled {dst : Device} {done : List (List String)} {name : String}
    {items : List (Held T)} {i : Nat} {t : DeviceTensor T} (hit : items[i]? = some (.leaf (.tensor t)))
    (hcuda : t.isCuda = true) :
    (items.mapIdx fun j it => filled dst done ["scheduler", name, toString j] it).set i
        (.leaf (.tensor (t.onto dst))) =
      items.mapIdx fun j it =>
        filled dst (["scheduler", name, toString i] :: done) ["scheduler", name, toString j] it := by
  refine List.ext_getElem? fun j => ?_
  rw [List.getElem?_set, List.getElem?_mapIdx, List.getElem?_mapIdx, List.length_mapIdx]
  split
  · rename_i heq
    subst heq
    rw [if_pos (List.getElem?_eq_some_iff.mp hit).1, hit]
    exact congrArg some (filled_tensor hcuda (List.mem_cons_self ..)).symm
  · rename_i hne
    refine congrArg (Option.map · _) (funext fun it => (filled_cons_ne ?_ it).symm)
    intro heq
    simp only [List.cons.injEq, true_and, and_true] at heq
    exact hne (Numerals.toString_inj heq).symm

section Fill

variable {root skeleton : Nat} {dst : Device} {start n : Memory (Leaf T)}
  {done : List (List String)} {name : String} {rest : List String} {attr : Held T}

theorem Filling.set (h : Filling m ref root skeleton dst start done n)
    (hroot : root < start.length) (hskeleton : skeleton < start.length) (hne : skeleton ≠ root)
    (hsk : (attrs start root).get? "scheduler" = some (.object skeleton))
    (hattr : (attrs m ref).get? name = some attr) (rest : List String) :
    Filling m ref root skeleton dst start (("scheduler" :: name :: rest) :: done)
      ((n.setattr skeleton name
        (filledAttr dst (("scheduler" :: name :: rest) :: done) name attr)).setattr root
          "scheduler" (.object skeleton)) := by
  have hroot' : root < n.length := hroot.trans_eq h.length.symm
  refine ⟨?_, fun other hr hs => ?_, fun other => ?_, fun other => ?_⟩
  · rw [length_setattr, length_setattr, h.length]
  · rw [attrs_setattr_ne (Ne.symm hr), attrs_setattr_ne (Ne.symm hs), h.others other hr hs]
  · rw [attrs_setattr_self (by rwa [length_setattr]), Dict.get?_set, attrs_setattr_ne hne]
    split
    · rename_i heq
      rw [← heq, hsk]
    · exact h.root other
  · rw [attrs_setattr_ne hne.symm, attrs_setattr_self (hskeleton.trans_eq h.length.symm),
      Dict.get?_set]
    split
    · rename_i heq
      rw [← heq, hattr]
      rfl
    · rename_i hother
      rw [h.parts]
      exact congrArg (Option.map · _) (funext fun a => (filledAttr_cons_ne (Ne.symm hother) a).symm)

theorem writeField_scheduler {w : Held T} {path : List String} {n' : Memory (Leaf T)}
    {inner : Held T} (hpath : path ≠ [])
    (hsk : (attrs n root).get? "scheduler" = some (.object skeleton))
    (h : writeField n (.object skeleton) path w = .ok (n', inner)) :
    writeField n (.object root) ("scheduler" :: path) w =
      .ok (n'.setattr root "scheduler" inner, .object root) := by
  cases path with
  | nil => exact absurd rfl hpath
  | cons part path =>
    rw [writeField, getPart_object hsk, Except.ok_bind, h]
    · rfl
    · exact nofun

theorem Filling.write {path : List String} {t : DeviceTensor T}
    (h : Filling m ref root skeleton dst start done n) (hroot : root < start.length)
    (hskeleton : skeleton < start.length) (hne : skeleton ≠ root)
    (hsk : (attrs start root).get? "scheduler" = some (.object skeleton))
    (href : schedulerOf m value = .object ref) (hslot : ExtraSlot m value path t) :
    ∃ n' held, writeField n (.object root) path (.leaf (.tensor (t.onto dst))) = .ok (n', held) ∧
      Filling m ref root skeleton dst start (path :: done) n' := by
  obtain ⟨ref', name, attr, href', hattr, hmem⟩ := hslot
  cases href.symm.trans href'
  have hskn := (h.root "scheduler").trans hsk
  have hset := h.set hroot hskeleton hne hsk hattr
  obtain ⟨hcuda, ⟨rfl, rfl⟩ | ⟨items, i, rfl, hit, rfl⟩⟩ := mem_deviceSlots.mp hmem
  · refine ⟨_, _, writeField_scheduler (List.cons_ne_nil _ _) hskn rfl, ?_⟩
    have hfill := hset []
    rwa [filledAttr, filled_tensor hcuda (List.mem_cons_self ..)] at hfill
    exact nofun
  · have hlt := (List.getElem?_eq_some_iff.mp hit).1
    have hpart := h.parts name
    rw [hattr, Option.map_some, filledAttr] at hpart
    refine ⟨_, _, writeField_scheduler (List.cons_ne_nil _ _) hskn ?_, hset [toString i]⟩
    rw [writeField, getPart_object hpart, Except.ok_bind]
    · show (writeField n (.container .list _) [toString i] _ >>= fun x => _) = _
      rw [writeField, setLeaf, indexOf_toString (by rwa [List.length_mapIdx]), Except.ok_bind,
        set_mapIdx_filled hit hcuda]
      rfl
    · exact nofun

/-- All other tensors are written back. -/
theorem writeExtraTensors_ok {entries : List (List String × DeviceTensor T)}
    {declared : List (List String)} (h : Filling m ref root skeleton dst start done n)
    (hroot : root < start.length) (hskeleton : skeleton < start.length) (hne : skeleton ≠ root)
    (hsk : (attrs start root).get? "scheduler" = some (.object skeleton))
    (href : schedulerOf m value = .object ref)
    (hentries : ∀ entry ∈ entries, entry.1 ∉ declared →
      ∃ t, ExtraSlot m value entry.1 t ∧ entry.2 = t.onto dst) :
    ∃ n' done', writeExtraTensors n root declared entries = .ok n' ∧
      Filling m ref root skeleton dst start done' n' ∧ done ⊆ done' ∧
      ∀ entry ∈ entries, entry.1 ∉ declared → entry.1 ∈ done' := by
  induction entries generalizing n done with
  | nil => exact ⟨n, done, rfl, h, fun _ hm => hm, fun _ hm => by cases hm⟩
  | cons entry entries ih =>
    obtain ⟨hentry, hrest⟩ := List.forall_mem_cons.mp hentries
    by_cases hdecl : entry.1 ∈ declared
    · obtain ⟨n', done', hok, hfill, hsub, hall⟩ := ih h hrest
      refine ⟨n', done', ?_, hfill, hsub, List.forall_mem_cons.mpr ⟨absurd hdecl, hall⟩⟩
      rw [writeExtraTensors, List.foldlM_cons, if_pos hdecl]
      exact hok
    · obtain ⟨t, hslot, hmoved⟩ := hentry hdecl
      obtain ⟨n₁, held, hwrite, hfill₁⟩ := h.write hroot hskeleton hne hsk href hslot
      obtain ⟨n', done', hok, hfill, hsub, hall⟩ := ih hfill₁ hrest
      refine ⟨n', done', ?_, hfill, fun _ hm => hsub (List.mem_cons_of_mem _ hm),
        List.forall_mem_cons.mpr ⟨fun _ => hsub (List.mem_cons_self ..), hall⟩⟩
      rw [writeExtraTensors, List.foldlM_cons, if_neg hdecl, hmoved, hwrite]
      exact hok

end Fill

/-- Without a scheduler nothing else arrives. -/
theorem writeExtraTensors_none {root : Nat} {entries : List (List String × DeviceTensor T)}
    {declared : List (List String)} (h : ∀ entry ∈ entries, entry.1 ∈ declared) :
    writeExtraTensors m root declared entries = .ok m := by
  induction entries with
  | nil => rfl
  | cons entry entries ih =>
    obtain ⟨hentry, hrest⟩ := List.forall_mem_cons.mp h
    rw [writeExtraTensors, List.foldlM_cons, if_pos hentry]
    exact ih hrest

theorem shareTimesteps_none {root skeleton : Nat}
    (hsk : (attrs m root).get? "scheduler" = some (.object skeleton))
    (hts : (attrs m root).get? "timesteps" = some .none) : shareTimesteps m root = .ok m := by
  rw [shareTimesteps, stateAttr, getPart_object hsk, Except.ok_bind]
  show (getPart m (.object root) "timesteps" >>= _) = _
  rw [getPart_object hts]
  rfl

theorem shareTimesteps_some {root skeleton : Nat} {held : Held T}
    (hsk : (attrs m root).get? "scheduler" = some (.object skeleton))
    (hts : (attrs m root).get? "timesteps" = some held) (hne : held ≠ .none) :
    shareTimesteps m root = .ok (m.setattr skeleton "timesteps" held) := by
  rw [shareTimesteps, stateAttr, getPart_object hsk, Except.ok_bind]
  show (getPart m (.object root) "timesteps" >>= _) = _
  rw [getPart_object hts, Except.ok_bind]
  cases held with
  | none => exact absurd rfl hne
  | leaf _ | container _ _ | object _ => rfl

structure IsState (m : Memory (Leaf T)) (value : Nat) : Prop where
  closed : Closed m
  there : value < m.length
  timesteps : ∃ held, (attrs m value).get? "timesteps" = some held

/-- The timesteps of a state once it is put together. -/
def timestepsAfter (m : Memory (Leaf T)) (value : Nat) (layout : OutputArtifactLayout)
    (dst : Device) : Option (Held T) :=
  ((attrs m value).get? "timesteps").map fun held =>
    if ["timesteps"] ∈ declaredPaths layout then tensorTreeToDevice held dst else held

/-- What putting together makes of the pickle. -/
structure Assembled (m : Memory (Leaf T)) (value : Nat) (layout : OutputArtifactLayout)
    (dst : Device) (n : Memory (Leaf T)) (root : Nat) : Prop where
  grows : Grows m n
  declared : ∀ name held, [name] ∈ declaredPaths layout →
    (attrs m value).get? name = some held →
    (attrs n root).get? name = some (tensorTreeToDevice held dst)
  scheduler : ∀ ref, schedulerOf m value = .object ref → ∃ skeleton,
    (attrs n root).get? "scheduler" = some (.object skeleton) ∧
    (∀ held, timestepsAfter m value layout dst = some held → held ≠ .none →
      (attrs n skeleton).get? "timesteps" = some held) ∧
    ∀ name, (name = "timesteps" → timestepsAfter m value layout dst = some .none) →
      (attrs n skeleton).get? name =
        ((attrs m ref).get? name).map (tensorTreeToDevice · dst)

/-- The declared tensors are back. -/
structure Injected (m : Memory (Leaf T)) (value : Nat) (layout : OutputArtifactLayout)
    (dst : Device) (p : Pickle T) (n : Memory (Leaf T)) : Prop where
  length : n.length = p.memory.length
  others : ∀ other, other ≠ p.root → attrs n other = attrs p.memory other
  declared : ∀ name held, [name] ∈ declaredPaths layout →
    (attrs m value).get? name = some held →
    (attrs n p.root).get? name = some (tensorTreeToDevice held dst)
  kept : ∀ name, [name] ∉ declaredPaths layout →
    (attrs n p.root).get? name = (attrs p.memory p.root).get? name

theorem Packs.injected {p : Pickle T} {extra : List (List String)} {dst : Device}
    {tensors : Dict (List String) (DeviceTensor T)} (hp : Packs m value layout p)
    (hl : OwnFields layout) (hsent : Sent m value (declaredPaths layout ++ extra) dst tensors) :
    ∃ n, injectTensorFields p.memory p.root tensors layout.tensors = .ok n ∧
      Injected m value layout dst p n := by
  have hown : ∀ field ∈ layout.tensors, ∃ name, field.fieldPath = [name] := fun field hm => by
    obtain ⟨name, hpath, -⟩ := hl _ (List.mem_map_of_mem hm)
    exact ⟨name, hpath⟩
  have hthere : ∀ field ∈ layout.tensors, ∃ t, tensors.get? field.fieldPath = some t :=
    fun field hm => (hsent.paths _).mp (List.mem_append_left _ (List.mem_map_of_mem hm))
  obtain ⟨n, hok, hn⟩ := injectTensorFields_ok hp.root_lt hown hthere
  refine ⟨n, hok, hn.length, hn.others, fun name held hmem hget => ?_, fun name hnot => ?_⟩
  · obtain ⟨t, ht⟩ := (hsent.paths [name]).mp (List.mem_append_left _ hmem)
    obtain ⟨s, hread, rfl⟩ := hsent.moved _ _ ht
    cases (readField_own_eq hread).symm.trans hget
    rw [hn.attrs]
    show (if [name] ∈ declaredPaths layout then _ else _) = _
    rw [if_pos hmem, ht, tensorTreeToDevice, Value.mapLeaves_leaf]
    rfl
  · rw [hn.attrs]
    exact if_neg hnot

theorem Injected.timesteps {p : Pickle T} {n : Memory (Leaf T)} {dst : Device}
    (h : Injected m value layout dst p n) (hp : Packs m value layout p) (hs : IsState m value) :
    (attrs n p.root).get? "timesteps" = timestepsAfter m value layout dst := by
  obtain ⟨held, hget⟩ := hs.timesteps
  rw [timestepsAfter, hget, Option.map_some]
  by_cases hdecl : ["timesteps"] ∈ declaredPaths layout
  · rw [if_pos hdecl, h.declared _ held hdecl hget]
  · rw [if_neg hdecl, h.kept _ hdecl, hp.kept _ (by decide) (by decide) (by decide) hdecl, hget]

theorem Injected.grows {p : Pickle T} {n : Memory (Leaf T)} {dst : Device}
    (h : Injected m value layout dst p n) (hp : Packs m value layout p) : Grows m n :=
  ⟨hp.grows.length.trans_eq h.length.symm, fun ref hr => by
    rw [h.others ref (hr.trans_le hp.root_new).ne, hp.grows.attrs ref hr]⟩

theorem OwnFields.scheduler_not_declared (hl : OwnFields layout) :
    ["scheduler"] ∉ declaredPaths layout := fun hmem => by
  obtain ⟨name, hpath, hne, -⟩ := hl _ hmem
  exact hne (List.head_eq_of_cons_eq hpath).symm

theorem OwnFields.device_ne (hl : OwnFields layout) {name : String}
    (hmem : [name] ∈ declaredPaths layout) : "device" ≠ name := by
  rintro rfl
  obtain ⟨name, hpath, -, hne, -⟩ := hl _ hmem
  exact hne (List.head_eq_of_cons_eq hpath).symm

section Assembling

variable {extra : List (List String)} {dst : Device}
  {tensors : Dict (List String) (DeviceTensor T)} {p : Pickle T}

/-- What arrives besides the declared tensors is from the scheduler. -/
theorem Sent.extraSlot (hsent : Sent m value (declaredPaths layout ++ extra) dst tensors)
    (hextra : ∀ path, path ∈ extra ↔ ∃ t, ExtraSlot m value path t) :
    ∀ entry ∈ tensors.entries, entry.1 ∉ declaredPaths layout →
      ∃ t, ExtraSlot m value entry.1 t ∧ entry.2 = t.onto dst := by
  intro entry hm hdecl
  have hget : tensors.get? entry.1 = some entry.2 := tensors.get?_eq_some.mpr hm
  have hmem := (List.mem_append.mp ((hsent.paths _).mpr ⟨_, hget⟩)).resolve_left hdecl
  obtain ⟨t, hslot⟩ := (hextra _).mp hmem
  obtain ⟨s, hread, hmoved⟩ := hsent.moved _ _ hget
  rw [hslot.readField] at hread
  cases hread
  exact ⟨t, hslot, hmoved⟩

/-- A state without a scheduler. -/
theorem Injected.assembled_plain {n : Memory (Leaf T)} (hn : Injected m value layout dst p n)
    (hp : Packs m value layout p) (hl : OwnFields layout)
    (hinject : injectTensorFields p.memory p.root tensors layout.tensors = .ok n)
    (hnone : schedulerOf m value = .none)
    (hroot : (attrs p.memory p.root).get? "scheduler" = some .none)
    (hentries : ∀ entry ∈ tensors.entries, entry.1 ∉ declaredPaths layout →
      ∃ t, ExtraSlot m value entry.1 t ∧ entry.2 = t.onto dst) (codecName : String) :
    ∃ n, assembleState codecName p tensors layout (some dst) = .ok (n, p.root) ∧
      Assembled m value layout dst n p.root := by
  have hall : ∀ entry ∈ tensors.entries, entry.1 ∈ declaredPaths layout := by
    intro entry hm
    by_contra hdecl
    obtain ⟨_, ⟨ref, _, _, href, -⟩, -⟩ := hentries entry hm hdecl
    rw [hnone] at href
    cases href
  have hself := attrs_setattr_self (hp.root_lt.trans_eq hn.length.symm) "device"
    (.leaf (.scalar dst.text))
  have hget : (attrs (n.setattr p.root "device" (.leaf (.scalar dst.text))) p.root).get?
      "scheduler" = some .none := by
    rw [hself, Dict.get?_set_ne _ (by decide), hn.kept _ hl.scheduler_not_declared, hroot]
  have hshare : shareTimesteps (n.setattr p.root "device" (.leaf (.scalar dst.text))) p.root =
      .ok (n.setattr p.root "device" (.leaf (.scalar dst.text))) := by
    rw [shareTimesteps, stateAttr, getPart_object hget]
    rfl
  refine ⟨n.setattr p.root "device" (.leaf (.scalar dst.text)), ?_,
    (hn.grows hp).setattr hp.root_new _ _, fun name held hmem hget => ?_, fun ref href => ?_⟩
  · unfold assembleState
    simp only [hinject, Except.ok_bind]
    rw [writeExtraTensors_none hall, Except.ok_bind, stateAttr, getPart_object hget,
      Except.ok_bind]
    show (shareTimesteps _ _ >>= _) = _
    rw [hshare]
    rfl
  · rw [hself, Dict.get?_set_ne _ (hl.device_ne hmem), hn.declared name held hmem hget]
  · rw [hnone] at href
    cases href

/-- The state and its scheduler hold all their tensors again. -/
structure Refilled (m : Memory (Leaf T)) (value : Nat) (layout : OutputArtifactLayout)
    (dst : Device) (n : Memory (Leaf T)) (root ref skeleton : Nat) : Prop where
  grows : Grows m n
  there : skeleton < n.length
  fresh : m.length ≤ skeleton
  apart : skeleton ≠ root
  scheduler : (attrs n root).get? "scheduler" = some (.object skeleton)
  timesteps : (attrs n root).get? "timesteps" = timestepsAfter m value layout dst
  declared : ∀ name held, [name] ∈ declaredPaths layout →
    (attrs m value).get? name = some held →
    (attrs n root).get? name = some (tensorTreeToDevice held dst)
  whole : ∀ name, (attrs n skeleton).get? name =
    ((attrs m ref).get? name).map (tensorTreeToDevice · dst)

/-- Once all its tensors are back, moving them again changes nothing else. -/
theorem Filling.moved {n start : Memory (Leaf T)} {ref root skeleton : Nat}
    {done : List (List String)} (hfill : Filling m ref root skeleton dst start done n)
    (href : schedulerOf m value = .object ref)
    (hall : ∀ path t, ExtraSlot m value path t → path ∈ done) (name : String) :
    ((attrs n skeleton).get? name).map (tensorTreeToDevice · dst) =
      ((attrs m ref).get? name).map (tensorTreeToDevice · dst) := by
  rw [hfill.parts, Option.map_map]
  cases hattr : (attrs m ref).get? name with
  | none => rfl
  | some attr =>
    refine congrArg some (filledAttr_moved fun path t hslot => ?_)
    exact hall path t ⟨ref, name, attr, href, hattr, hslot⟩

/-- What is done before the state and its solver share the timesteps. -/
theorem Injected.refilled {n₁ : Memory (Leaf T)} {ref skeleton : Nat}
    (hn₁ : Injected m value layout dst p n₁) (hp : Packs m value layout p)
    (hs : IsState m value) (hl : OwnFields layout)
    (hextra : ∀ path, path ∈ extra ↔ ∃ t, ExtraSlot m value path t)
    (hsent : Sent m value (declaredPaths layout ++ extra) dst tensors)
    (hinject : injectTensorFields p.memory p.root tensors layout.tensors = .ok n₁)
    (href : schedulerOf m value = .object ref)
    (hroot : (attrs p.memory p.root).get? "scheduler" = some (.object skeleton))
    (hnew : m.length ≤ skeleton) (hlt : skeleton < p.root)
    (hattrs : ∀ name, (attrs p.memory skeleton).get? name =
      ((attrs m ref).get? name).map skeletonAttr) (codecName : String) :
    ∃ n₄, assembleState codecName p tensors layout (some dst) =
        (shareTimesteps n₄ p.root >>= fun n => pure (n, p.root)) ∧
      Refilled m value layout dst n₄ p.root ref skeleton := by
  have hne : skeleton ≠ p.root := hlt.ne
  have hroot₁ : p.root < n₁.length := hp.root_lt.trans_eq hn₁.length.symm
  have hsk₁ := (hn₁.kept "scheduler" hl.scheduler_not_declared).trans hroot
  have hstart : Filling m ref p.root skeleton dst n₁ [] n₁ := by
    refine ⟨rfl, fun _ _ _ => rfl, fun _ => rfl, fun name => ?_⟩
    rw [hn₁.others skeleton hne, hattrs]
    exact congrArg (Option.map · _) (funext fun attr => (filledAttr_nil dst name attr).symm)
  obtain ⟨n₂, done, hwrite, hfill, -, hdone⟩ := writeExtraTensors_ok hstart hroot₁
    (hlt.trans hroot₁) hne hsk₁ href (hsent.extraSlot hextra)
  have hslots : ∀ path t, ExtraSlot m value path t → path ∈ done := by
    intro path t hslot
    obtain ⟨t', ht'⟩ := (hsent.paths path).mp
      (List.mem_append_right _ ((hextra path).mpr ⟨t, hslot⟩))
    exact hdone (path, t') (tensors.get?_eq_some.mp ht') (hslot.not_declared hl)
  have hroot₂ : p.root < n₂.length := hroot₁.trans_eq hfill.length.symm
  let n₃ := n₂.setattr p.root "device" (.leaf (.scalar dst.text))
  have hlen₃ : n₃.length = n₂.length := length_setattr ..
  have hself₃ : attrs n₃ p.root = _ := attrs_setattr_self hroot₂ "device" _
  have hskeleton₃ : attrs n₃ skeleton = attrs n₂ skeleton := attrs_setattr_ne hne.symm ..
  have hget₃ : (attrs n₃ p.root).get? "scheduler" = some (.object skeleton) := by
    rw [hself₃, Dict.get?_set_ne _ (by decide), hfill.root, hsk₁]
  let n₄ := n₃.setattrs skeleton <|
    (n₃.attrs skeleton).entries.map fun entry => (entry.1, tensorTreeToDevice entry.2 dst)
  have hroot₄ : attrs n₄ p.root = attrs n₃ p.root := attrs_setattrs_ne hne _
  refine ⟨n₄, ?_, ?_, by rw [length_setattrs]; omega, hnew, hne, by rw [hroot₄, hget₃], ?_,
    fun name held hmem hget => ?_, fun name => ?_⟩
  · unfold assembleState
    simp only [hinject, Except.ok_bind]
    rw [hwrite, Except.ok_bind, stateAttr, getPart_object hget₃]
    rfl
  · have hgrows₂ : Grows m n₂ := by
      refine ⟨(hn₁.grows hp).length.trans_eq hfill.length.symm, fun r hr => ?_⟩
      rw [hfill.others r (hr.trans_le hp.root_new).ne (hr.trans_le hnew).ne,
        (hn₁.grows hp).attrs r hr]
    exact (hgrows₂.setattr hp.root_new _ _).setattrs hnew _
  · rw [hroot₄, hself₃, Dict.get?_set_ne _ (by decide), hfill.root, hn₁.timesteps hp hs]
  · rw [hroot₄, hself₃, Dict.get?_set_ne _ (hl.device_ne hmem), hfill.root,
      hn₁.declared name held hmem hget]
  · rw [attrs_setattrs_self (by omega), Dict.get?_insertAll_map _ (tensorTreeToDevice · dst),
      hskeleton₃, hfill.moved href hslots]

/-- The solver takes over the timesteps of the state, if there are any. -/
theorem Refilled.assembled {n : Memory (Leaf T)} {root ref skeleton : Nat}
    (h : Refilled m value layout dst n root ref skeleton) (hs : IsState m value)
    (href : schedulerOf m value = .object ref) :
    ∃ n', shareTimesteps n root = .ok n' ∧ Assembled m value layout dst n' root := by
  obtain ⟨held, hts⟩ := hs.timesteps
  obtain ⟨after, hafter⟩ : ∃ after, timestepsAfter m value layout dst = some after :=
    ⟨_, by rw [timestepsAfter, hts]; rfl⟩
  by_cases hnone : after = .none
  · subst hnone
    refine ⟨n, shareTimesteps_none h.scheduler (h.timesteps.trans hafter), h.grows, h.declared,
      fun ref' href' => ?_⟩
    cases href.symm.trans href'
    refine ⟨skeleton, h.scheduler, fun held hheld hne => ?_, fun name _ => h.whole name⟩
    exact absurd (Option.some.inj (hheld.symm.trans hafter)) hne
  · have hroot : attrs (n.setattr skeleton "timesteps" after) root = attrs n root :=
      attrs_setattr_ne h.apart ..
    have hself := attrs_setattr_self h.there "timesteps" after
    refine ⟨_, shareTimesteps_some h.scheduler (h.timesteps.trans hafter) hnone,
      h.grows.setattr h.fresh _ _, fun name held hmem hget => ?_, fun ref' href' => ?_⟩
    · rw [hroot, h.declared name held hmem hget]
    · cases href.symm.trans href'
      refine ⟨skeleton, by rw [hroot, h.scheduler], fun held hheld _ => ?_, fun name hname => ?_⟩
      · rw [hself, Dict.get?_set_self, ← hheld, hafter]
      · rw [hself, Dict.get?_set_ne, h.whole]
        rintro rfl
        exact hnone (Option.some.inj (hafter.symm.trans (hname rfl)))

end Assembling

theorem Packs.assembled {p : Pickle T} {extra : List (List String)} (dst : Device)
    (tensors : Dict (List String) (DeviceTensor T)) (codecName : String)
    (hp : Packs m value layout p) (hs : IsState m value) (hl : OwnFields layout)
    (hextra : ∀ path, path ∈ extra ↔ ∃ t, ExtraSlot m value path t)
    (hsent : Sent m value (declaredPaths layout ++ extra) dst tensors) :
    ∃ n, assembleState codecName p tensors layout (some dst) = .ok (n, p.root) ∧
      Assembled m value layout dst n p.root := by
  obtain ⟨n₁, hinject, hn₁⟩ := hp.injected hl hsent
  rcases hp.scheduler with ⟨hnone, hroot⟩ | ⟨ref, skeleton, href, hroot, hnew, hlt, hattrs⟩
  · exact hn₁.assembled_plain hp hl hinject hnone hroot (hsent.extraSlot hextra) codecName
  · obtain ⟨n₄, heq, hn₄⟩ := hn₁.refilled hp hs hl hextra hsent hinject href hroot hnew hlt hattrs
      codecName
    obtain ⟨n, hshare, hn⟩ := hn₄.assembled hs href
    refine ⟨n, ?_, hn⟩
    rw [heq, hshare]
    rfl

-- ---------------------------------------------------------------------------
-- The round trip
-- ---------------------------------------------------------------------------

def SameValue (a b : Held T) : Prop := tensorTreeToDevice a .host = tensorTreeToDevice b .host

def AllOn (m : Memory (Leaf T)) (held : Held T) (dst : Device) : Prop :=
  ∀ t, Holds m held (.tensor t) → t.device = dst

/-- The declared fields and the scheduler's attributes are as in the source,
with all tensors on the destination's device. -/
structure Restored (m : Memory (Leaf T)) (value : Nat) (layout : OutputArtifactLayout)
    (dst : Device) (n : Memory (Leaf T)) (root : Nat) : Prop where
  fields : ∀ path ∈ declaredPaths layout, ∀ held, readField m (.object value) path = .ok held →
    readField n (.object root) path = .ok (tensorTreeToDevice held dst)
  scheduler : ∀ ref, schedulerOf m value = .object ref → ∃ ref', schedulerOf n root = .object ref' ∧
    ∀ name attr, (attrs m ref).get? name = some attr →
      ∃ attr', (attrs n ref').get? name = some attr' ∧ SameValue attr attr' ∧ AllOn n attr' dst
  objects : Grows m n

/-- A packed state holds no tensor on a device, has the listed ones taken out,
is whole again where it is put together, and packing leaves the source alone. -/
structure RoundTrips (codec : StateCodec) (m : Memory (Leaf T)) (value : Nat)
    (layout : OutputArtifactLayout) (dst : Device) (m' : Memory (Leaf T)) (p : Pickle T) :
    Prop where
  offDevice : OffDevice p.memory (.object p.root)
  listed : ∃ extra, migrationExtraFields m value layout = .ok extra ∧
    ∀ path, path ∈ extra.map TensorFieldLayout.fieldPath ↔ Nulled m value p path
  restored : ∀ extra tensors, migrationExtraFields m value layout = .ok extra →
    Sent m value (declaredPaths layout ++ extra.map TensorFieldLayout.fieldPath) dst tensors →
    ∃ n root, codec.assemble p tensors layout (some dst) = .ok (n, root) ∧
      Restored m value layout dst n root
  source : Grows m m'

structure Restorable (m : Memory (Leaf T)) (value : Nat) (layout : OutputArtifactLayout)
    (dst : Device) : Prop where
  timesteps : ∀ ref attr held, schedulerOf m value = .object ref →
    (attrs m ref).get? "timesteps" = some attr → timestepsAfter m value layout dst = some held →
    held ≠ .none → SameValue attr held ∧ AllOn m held dst
  objects : ∀ ref name attr, schedulerOf m value = .object ref →
    (attrs m ref).get? name = some attr →
    (name = "timesteps" → timestepsAfter m value layout dst = some .none) →
    ∀ inner, attr.Mentions inner → AllOn m (.object inner) dst

/-- There is a tensor for every declared field. -/
def Sendable (m : Memory (Leaf T)) (value : Nat) (layout : OutputArtifactLayout) : Prop :=
  ∀ path ∈ declaredPaths layout, ∃ t, readField m (.object value) path = .ok (.leaf (.tensor t))

theorem has_toDevice {held : Held T} {dst : Device} {t : DeviceTensor T}
    (h : (tensorTreeToDevice held dst).Has (.tensor t)) : t.device = dst := by
  obtain ⟨l, -, hl⟩ := Value.has_mapLeaves.mp h
  cases l with
  | scalar text => cases hl
  | tensor s =>
    cases hl
    rfl

theorem allOn_toDevice {held : Held T} {dst : Device} : AllOn m (tensorTreeToDevice held dst) dst ↔
    ∀ inner, held.Mentions inner → AllOn m (.object inner) dst := by
  constructor
  · intro hall inner hm t ht
    exact hall t (holds_iff.mpr (.inr ⟨inner, Value.mentions_mapLeaves.mpr hm, ht⟩))
  · intro hall t ht
    rcases holds_iff.mp ht with hhas | ⟨inner, hm, ht⟩
    · exact has_toDevice hhas
    · exact hall inner (Value.mentions_mapLeaves.mp hm) t ht

theorem sameValue_toDevice (held : Held T) (dst : Device) :
    SameValue held (tensorTreeToDevice held dst) :=
  (tensorTreeToDevice_twice held dst .host).symm

theorem IsState.after (hs : IsState m value) (layout : OutputArtifactLayout) (dst : Device) :
    ∃ held, timestepsAfter m value layout dst = some held ∧
      ∀ r, held.Mentions r → r < m.length := by
  obtain ⟨held, hget⟩ := hs.timesteps
  refine ⟨_, by rw [timestepsAfter, hget]; rfl, fun r hr => ?_⟩
  split at hr
  · exact hs.closed _ _ _ hget r (Value.mentions_mapLeaves.mp hr)
  · exact hs.closed _ _ _ hget r hr

theorem allOn_grows {n : Memory (Leaf T)} {held : Held T} {dst : Device}
    (h : Grows m n) (hc : Closed m) (hold : ∀ r, held.Mentions r → r < m.length) :
    AllOn n held dst ↔ AllOn m held dst :=
  forall_congr' fun _ => imp_congr_left (h.holds hc hold)

/-- A state that was put together is the source's where that can be restored. -/
theorem Assembled.restored_iff {n : Memory (Leaf T)} {root : Nat} {dst : Device}
    (h : Assembled m value layout dst n root) (hs : IsState m value) (hl : OwnFields layout) :
    Restored m value layout dst n root ↔ Restorable m value layout dst := by
  obtain ⟨after, hafter, hafterOld⟩ := hs.after layout dst
  have hinner : ∀ {ref name attr inner}, (attrs m ref).get? name = some attr →
      attr.Mentions inner → (AllOn n (.object inner) dst ↔ AllOn m (.object inner) dst) := by
    intro ref name attr inner hattr hm
    refine allOn_grows h.grows hs.closed fun r hr => ?_
    cases hr
    exact hs.closed ref name attr hattr inner hm
  constructor
  · intro hr
    refine ⟨fun ref attr held href hattr hheld hne => ?_,
      fun ref name attr href hattr hname inner hm => ?_⟩
    · obtain ⟨skeleton, hsk, hshared, -⟩ := h.scheduler ref href
      obtain ⟨ref', href', hall⟩ := hr.scheduler ref href
      obtain ⟨attr', hget, hsame, hon⟩ := hall "timesteps" attr hattr
      cases hsk.symm.trans (schedulerOf_object href')
      cases (hshared held hheld hne).symm.trans hget
      cases hafter.symm.trans hheld
      exact ⟨hsame, (allOn_grows h.grows hs.closed hafterOld).mp hon⟩
    · obtain ⟨skeleton, hsk, -, hattrs⟩ := h.scheduler ref href
      obtain ⟨ref', href', hall⟩ := hr.scheduler ref href
      obtain ⟨attr', hget, -, hon⟩ := hall name attr hattr
      cases hsk.symm.trans (schedulerOf_object href')
      rw [hattrs name hname, hattr] at hget
      cases hget
      exact (hinner hattr hm).mp (allOn_toDevice.mp hon inner hm)
  · intro hr
    refine ⟨fun path hmem held hread => ?_, fun ref href => ?_, h.grows⟩
    · obtain ⟨name, rfl, -⟩ := hl path hmem
      exact readField_own (h.declared name held hmem (readField_own_eq hread))
    · obtain ⟨skeleton, hsk, hshared, hattrs⟩ := h.scheduler ref href
      refine ⟨skeleton, by rw [schedulerOf, hsk]; rfl, fun name attr hattr => ?_⟩
      by_cases hname : name = "timesteps" → timestepsAfter m value layout dst = some .none
      · refine ⟨_, by rw [hattrs name hname, hattr]; rfl, sameValue_toDevice attr dst, ?_⟩
        exact allOn_toDevice.mpr fun inner hm =>
          (hinner hattr hm).mpr (hr.objects ref name attr href hattr hname inner hm)
      · obtain ⟨rfl, hsome⟩ := Classical.not_imp.mp hname
        have hne : after ≠ .none := fun hnone => hsome (hnone ▸ hafter)
        obtain ⟨hsame, hon⟩ := hr.timesteps ref attr after href hattr hafter hne
        exact ⟨after, hshared after hafter hne, hsame,
          (allOn_grows h.grows hs.closed hafterOld).mpr hon⟩

theorem exists_sent {paths : List (List String)} (dst : Device)
    (h : ∀ path ∈ paths, ∃ t, readField m (.object value) path = .ok (.leaf (.tensor t))) :
    ∃ tensors, Sent m value paths dst tensors := by
  induction paths with
  | nil =>
    refine ⟨∅, fun path => iff_of_false List.not_mem_nil ?_, fun path t ht => ?_⟩
    · rintro ⟨t, ht⟩
      rw [Dict.get?_empty] at ht
      cases ht
    · rw [Dict.get?_empty] at ht
      cases ht
  | cons path paths ih =>
    obtain ⟨⟨t, ht⟩, hrest⟩ := List.forall_mem_cons.mp h
    obtain ⟨tensors, hsent⟩ := ih hrest
    refine ⟨tensors.set path (t.onto dst), fun other => ?_, fun other t' => ?_⟩
    · rw [Dict.get?_set, List.mem_cons, hsent.paths]
      by_cases hother : path = other
      · simp [hother]
      · simp [hother, Ne.symm hother]
    · rw [Dict.get?_set]
      split
      · rintro ⟨⟩
        exact ⟨t, by simpa [‹path = other›] using ht, rfl⟩
      · exact hsent.moved other t'

-- ---------------------------------------------------------------------------
-- The layouts of states
-- ---------------------------------------------------------------------------

theorem replicatedFields_own {fields : List (String × Shape × String)}
    {tensors : List TensorFieldLayout} (h : replicatedFields fields = .ok tensors)
    (hown : ∀ name ∈ fields.map Prod.fst,
      name ≠ "scheduler" ∧ name ≠ "device" ∧ name ≠ "request") :
    ∀ path ∈ tensors.map TensorFieldLayout.fieldPath, ∃ name, path = [name] ∧
      name ≠ "scheduler" ∧ name ≠ "device" ∧ name ≠ "request" := by
  intro path hpath
  obtain ⟨tensor, hm, rfl⟩ := List.mem_map.mp hpath
  obtain ⟨field, hfield, htensor⟩ := Except.exists_of_mem_mapM h hm
  exact ⟨field.1, (replicatedTensorField_eq (List.cons_ne_nil _ _) htensor).1,
    hown _ (List.mem_map_of_mem hfield)⟩

def StateCodec.Describes (codec : StateCodec) (layout : OutputArtifactLayout) : Prop :=
  match codec with
  | .wan => ∃ pipeline group rank metadata artifact,
      Wan.describeOutput pipeline group rank metadata artifact = .ok layout
  | .qwenImage => ∃ (Token : Type) (pipeline : QwenImage.Pipeline Token), ∃ group rank metadata
      artifact, QwenImage.describeOutput pipeline group rank metadata artifact = .ok layout

theorem ownFields_of_describe {handle : ArtifactHandle}
    {fields : Except PyError (List (String × Shape × String))}
    (hown : ∀ named, fields = .ok named → ∀ name ∈ named.map Prod.fst,
      name ≠ "scheduler" ∧ name ≠ "device" ∧ name ≠ "request")
    (h : (fields >>= fun named => replicatedFields named >>= fun tensors =>
      outputArtifactLayout handle tensors) = .ok layout) : OwnFields layout := by
  obtain ⟨named, hnamed, h⟩ := Except.bind_eq_ok.mp h
  obtain ⟨tensors, htensors, h⟩ := Except.bind_eq_ok.mp h
  unfold outputArtifactLayout at h
  split at h
  · cases h
    exact replicatedFields_own htensors (hown named hnamed)
  · cases h

theorem wan_declaredFields_own {pipeline : Wan.Pipeline} {metadata : Dict String PyValue}
    {artifactId : String} {named : List (String × Shape × String)}
    (h : Wan.declaredFields pipeline metadata artifactId = .ok named) :
    ∀ name ∈ named.map Prod.fst, name ≠ "scheduler" ∧ name ≠ "device" ∧ name ≠ "request" := by
  unfold Wan.declaredFields at h
  obtain ⟨batch, -, h⟩ := Except.bind_eq_ok.mp h
  obtain ⟨textSeqLen, -, h⟩ := Except.bind_eq_ok.mp h
  obtain ⟨numSteps, -, h⟩ := Except.bind_eq_ok.mp h
  simp only at h
  split at h
  · obtain ⟨shape, -, h⟩ := Except.bind_eq_ok.mp h
    cases h
    split <;> split <;> split <;> simp
  · cases h
    split <;> split <;> simp

theorem qwen_declaredFields_own {Token : Type} {pipeline : QwenImage.Pipeline Token}
    {metadata : Dict String PyValue} {artifactId : String}
    {named : List (String × Shape × String)}
    (h : QwenImage.declaredFields pipeline metadata artifactId = .ok named) :
    ∀ name ∈ named.map Prod.fst, name ≠ "scheduler" ∧ name ≠ "device" ∧ name ≠ "request" := by
  unfold QwenImage.declaredFields at h
  obtain ⟨batch, -, h⟩ := Except.bind_eq_ok.mp h
  obtain ⟨textSeqLen, -, h⟩ := Except.bind_eq_ok.mp h
  obtain ⟨latentSeqLen, -, h⟩ := Except.bind_eq_ok.mp h
  obtain ⟨numSteps, -, h⟩ := Except.bind_eq_ok.mp h
  cases h
  split <;> split <;> split <;> (try split) <;> simp

theorem StateCodec.Describes.ownFields {codec : StateCodec} (h : codec.Describes layout) :
    OwnFields layout := by
  cases codec with
  | wan =>
    obtain ⟨pipeline, group, rank, metadata, artifact, h⟩ := h
    obtain ⟨⟨⟩, -, h⟩ := Except.bind_eq_ok.mp h
    exact ownFields_of_describe (fun _ => wan_declaredFields_own) h
  | qwenImage =>
    obtain ⟨_, pipeline, group, rank, metadata, artifact, h⟩ := h
    obtain ⟨⟨⟩, -, h⟩ := Except.bind_eq_ok.mp h
    exact ownFields_of_describe (fun _ => qwen_declaredFields_own) h

-- ---------------------------------------------------------------------------
-- A state of the prompt
-- ---------------------------------------------------------------------------

def promptTensor : DeviceTensor Unit := ⟨[1, 512, 1], "bfloat16", (), .cuda 0, smallWan.dtype_ne⟩

def promptLayout : OutputArtifactLayout :=
  ⟨⟨"r", "state_text", some Wan.stateCodecId⟩, [⟨["prompt_embeds"], [1, 512, 1], "bfloat16",
    .replicated, [1, 512, 1], [0, 0, 0], List.cons_ne_nil _ _, smallWan.dtype_ne,
    fitsAxes_zero [1, 512, 1]⟩], rfl⟩

def promptState (history : Held Unit) : Memory (Leaf Unit) :=
  [Dict.set ∅ "model_outputs" history,
    (∅ : Dict String (Held Unit)).insertAll [("request", .leaf (.scalar "r")),
      ("prompt_embeds", .leaf (.tensor promptTensor)), ("timesteps", .none),
      ("scheduler", .object 0), ("device", .leaf (.scalar "cuda:0"))]]

theorem promptLayout_described : StateCodec.wan.Describes promptLayout :=
  ⟨smallWan, soloSpec "g" 0 [], 0, ∅, promptLayout.handle, by decide +kernel⟩

theorem not_mentions_one (kind : Container) (l : Leaf Unit) (r : Nat) :
    ¬ (Value.container kind [.leaf l] : Held Unit).Mentions r := by
  intro hm
  obtain ⟨_, hit, hm⟩ := Value.mentions_container.mp hm
  cases List.mem_singleton.mp hit
  cases hm

theorem get?_promptState {history held : Held Unit} {r : Nat} {name : String}
    (h : (attrs (promptState history) r).get? name = some held) :
    (r = 0 ∧ name = "model_outputs" ∧ held = history) ∨
      (r = 1 ∧ (name, held) ∈ [("request", .leaf (.scalar "r")),
        ("prompt_embeds", .leaf (.tensor promptTensor)), ("timesteps", .none),
        ("scheduler", .object 0), ("device", .leaf (.scalar "cuda:0"))]) := by
  rcases r with _ | _ | r
  · obtain ⟨rfl, rfl⟩ : name = "model_outputs" ∧ held = history := by
      simpa using List.mem_singleton.mp ((Dict.get?_eq_some _).mp h)
    exact .inl ⟨rfl, rfl, rfl⟩
  · exact .inr ⟨rfl, (Dict.get?_eq_some _).mp h⟩
  · cases h

theorem promptState_isState {history : Held Unit} (h : ∀ r, ¬ history.Mentions r) :
    IsState (promptState history) 1 := by
  refine ⟨fun r name held hget r' hm => ?_, Nat.one_lt_two, .none, rfl⟩
  rcases get?_promptState hget with ⟨-, -, rfl⟩ | ⟨-, hmem⟩
  · exact absurd hm (h r')
  · simp only [List.mem_cons, Prod.mk.injEq, List.not_mem_nil, or_false] at hmem
    rcases hmem with ⟨-, rfl⟩ | ⟨-, rfl⟩ | ⟨-, rfl⟩ | ⟨-, rfl⟩ | ⟨-, rfl⟩
    all_goals cases hm
    exact Nat.zero_lt_two

-- ---------------------------------------------------------------------------
-- When a state makes the trip
-- ---------------------------------------------------------------------------

/-- A state makes the trip exactly when its tensors on a device are where the
walks look and, if it can be sent, the objects and the timesteps of its scheduler
need no moving. -/
theorem StateCodec.round_trip_iff {codec : StateCodec} {dst : Device} {m' : Memory (Leaf T)}
    {p : Pickle T} (hs : IsState m value) (hd : codec.Describes layout)
    (h : packMetadata m value layout = .ok (m', p)) :
    RoundTrips codec m value layout dst m' p ↔
      ShallowTensors m value layout ∧
        (Sendable m value layout → Restorable m value layout dst) := by
  have hl := hd.ownFields
  obtain ⟨rfl, hp⟩ := packMetadata_ok hs.closed hs.there hl h
  obtain ⟨extra, hextra, hpaths⟩ := migrationExtraFields_ok hl hp
  have hassembled := fun tensors => Packs.assembled dst tensors codec.className hp hs hl hpaths
  constructor
  · intro htrip
    refine ⟨(hp.offDevice_iff hs.closed).mp htrip.offDevice, fun hsend => ?_⟩
    have hread : ∀ path ∈ declaredPaths layout ++ extra.map TensorFieldLayout.fieldPath,
        ∃ t, readField m (.object value) path = .ok (.leaf (.tensor t)) := by
      intro path hm
      rcases List.mem_append.mp hm with hm | hm
      · exact hsend path hm
      · obtain ⟨t, hslot⟩ := (hpaths path).mp hm
        exact ⟨t, hslot.readField⟩
    obtain ⟨tensors, hsent⟩ := exists_sent dst hread
    obtain ⟨n, hok, hn⟩ := hassembled tensors hsent
    obtain ⟨n', root, hok', hrestored⟩ := htrip.restored extra tensors hextra hsent
    cases hok.symm.trans hok'
    exact (hn.restored_iff hs hl).mp hrestored
  · rintro ⟨hshallow, hrestorable⟩
    refine ⟨(hp.offDevice_iff hs.closed).mpr hshallow, ⟨extra, hextra, fun path => ?_⟩,
      fun extra' tensors hextra' hsent => ?_, hp.grows⟩
    · rw [hpaths, hp.nulled_iff hs.closed]
    · cases hextra.symm.trans hextra'
      obtain ⟨n, hok, hn⟩ := hassembled tensors hsent
      refine ⟨n, p.root, hok, (hn.restored_iff hs hl).mpr (hrestorable fun path hm => ?_)⟩
      obtain ⟨t, ht⟩ := (hsent.paths path).mp (List.mem_append_left _ hm)
      obtain ⟨s, hread, -⟩ := hsent.moved path t ht
      exact ⟨s, hread⟩

/-- A list of tensors makes the trip. -/
theorem round_trip_iff_list : ∃ m' p,
    packMetadata (promptState (.container .list [.leaf (.tensor promptTensor)])) 1 promptLayout =
      .ok (m', p) ∧
    RoundTrips .wan (promptState (.container .list [.leaf (.tensor promptTensor)])) 1
      promptLayout (.cuda 1) m' p := by
  have hlist := not_mentions_one .list (.tensor promptTensor)
  have hs := promptState_isState hlist
  refine ⟨_, _, rfl, (StateCodec.round_trip_iff hs promptLayout_described rfl).mpr ⟨⟨?_, ?_, ?_⟩,
    fun _ => ⟨?_, ?_⟩⟩⟩
  · intro name held hget hscheduler _ hrequest hnot t ht
    rcases get?_promptState hget with ⟨h, -⟩ | ⟨-, hmem⟩
    · cases h
    · simp only [List.mem_cons, Prod.mk.injEq, List.not_mem_nil, or_false] at hmem
      rcases hmem with ⟨rfl, -⟩ | ⟨rfl, -⟩ | ⟨-, rfl⟩ | ⟨rfl, -⟩ | ⟨-, rfl⟩
      · exact absurd rfl hrequest
      · exact absurd (List.mem_singleton_self _) hnot
      · exact absurd ht not_holds_none
      · exact absurd rfl hscheduler
      · cases holds_leaf.mp ht
  · intro request hget part hpart t ht
    cases hget
    cases List.mem_singleton.mp hpart
    cases holds_leaf.mp ht
  · intro ref name attr href hget part hpart
    cases href
    rcases get?_promptState hget with ⟨-, -, rfl⟩ | ⟨h, -⟩
    · cases hpart
    · cases h
  · intro ref attr held _ _ hheld hne
    cases hheld
    exact absurd rfl hne
  · intro ref name attr href hget _ inner hm
    cases href
    rcases get?_promptState hget with ⟨-, -, rfl⟩ | ⟨h, -⟩
    · exact absurd hm (hlist inner)
    · cases h

/-- A tuple of tensors is packed with them. -/
theorem tuple_left_on_device : ∃ (m m' : Memory (Leaf Unit)) (p : Pickle Unit),
    IsState m 1 ∧ StateCodec.wan.Describes promptLayout ∧
    packMetadata m 1 promptLayout = .ok (m', p) ∧
    ¬ RoundTrips .wan m 1 promptLayout (.cuda 1) m' p := by
  have hs := promptState_isState (not_mentions_one .tuple (.tensor promptTensor))
  refine ⟨_, _, _, hs, promptLayout_described, rfl, fun htrip => ?_⟩
  have hheld : Holds (promptState (.container .tuple [.leaf (.tensor promptTensor)]))
      (.container .tuple [.leaf (.tensor promptTensor)]) (.tensor promptTensor) :=
    .item (List.mem_singleton_self _) (.leaf _)
  obtain ⟨-, hp⟩ := packMetadata_ok hs.closed hs.there promptLayout_described.ownFields rfl
  have hshallow := (hp.offDevice_iff hs.closed).mp htrip.offDevice
  cases hshallow.scheduler 0 "model_outputs" _ rfl rfl _ (List.mem_singleton_self _) promptTensor
    hheld

end Codec

end GfDit
