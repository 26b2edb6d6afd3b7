import GfDit.Adapters.Common

/-!
# Names in a chunked plan

The tasks and artifacts of a plan are named by strings that carry the index of
a chunk and, for a state that has changed groups, the name of its group. No
two of them coincide: they differ in their first characters or in a number,
and a number ends where the next character is no digit.
-/

namespace GfDit

-- ---------------------------------------------------------------------------
-- Numerals
-- ---------------------------------------------------------------------------

theorem isDigit_of_mem_repr {n : Nat} (h : c ∈ n.repr.toList) : c.isDigit = true := by
  rw [Nat.toList_repr] at h
  exact Nat.isDigit_of_mem_toDigits (by decide) (by decide) h

theorem not_mem_repr (n : Nat) (hc : c.isDigit = false) : c ∉ n.repr.toList := fun h => by
  rw [isDigit_of_mem_repr h] at hc
  cases hc

theorem takeWhile_repr_append (n : Nat) {s : List Char} (hs : ∀ c ∈ s.head?, c.isDigit = false) :
    (n.repr.toList ++ s).takeWhile Char.isDigit = n.repr.toList := by
  rw [List.takeWhile_append_of_pos fun c hc => isDigit_of_mem_repr hc]
  cases s with
  | nil => simp
  | cons c s => simp [hs c (by simp)]

/-- A numeral can be read back when no digit follows it. -/
theorem repr_append_inj {m n : Nat} {s t : List Char} (hs : ∀ c ∈ s.head?, c.isDigit = false)
    (ht : ∀ c ∈ t.head?, c.isDigit = false) (h : m.repr.toList ++ s = n.repr.toList ++ t) :
    m = n := by
  have hrepr := takeWhile_repr_append m hs
  rw [h, takeWhile_repr_append n ht, Nat.toList_repr, Nat.toList_repr] at hrepr
  have hread := congrArg (Nat.ofDigitChars 10 · 0) hrepr
  simpa [Nat.ofDigitChars_toDigits] using hread.symm

theorem repr_inj {m n : Nat} (h : m.repr.toList = n.repr.toList) : m = n :=
  repr_append_inj (s := []) (t := []) (by simp) (by simp) (by simpa using h)

-- ---------------------------------------------------------------------------
-- Tasks
-- ---------------------------------------------------------------------------

inductive PlanTask
  | textEncode | reshardTextToDit | ditPrepare | timestepPrepare
  | reshardDitStep (idx : Nat)
  | ditStepChunk (idx : Nat)
  | reshardDitToAux | vaeDecode | finalize
  deriving DecidableEq

namespace PlanTask

def text : PlanTask → String
  | textEncode => "text_encode:0"
  | reshardTextToDit => "reshard_text_to_dit:0"
  | ditPrepare => "dit_prepare:0"
  | timestepPrepare => "timestep_prepare:0"
  | reshardDitStep idx => s!"reshard_dit_step:{idx}"
  | ditStepChunk idx => s!"dit_step_chunk:{idx}"
  | reshardDitToAux => "reshard_dit_to_aux:0"
  | vaeDecode => "vae_decode:0"
  | finalize => "finalize:0"

def parts : PlanTask → String × List Char
  | textEncode => ("text_encode:0", [])
  | reshardTextToDit => ("reshard_text_to_dit:0", [])
  | ditPrepare => ("dit_prepare:0", [])
  | timestepPrepare => ("timestep_prepare:0", [])
  | reshardDitStep idx => ("reshard_dit_step:", idx.repr.toList)
  | ditStepChunk idx => ("dit_step_chunk:", idx.repr.toList)
  | reshardDitToAux => ("reshard_dit_to_aux:0", [])
  | vaeDecode => ("vae_decode:0", [])
  | finalize => ("finalize:0", [])

theorem toList_text (a : PlanTask) : a.text.toList = a.parts.1.toList ++ a.parts.2 := by
  cases a with
  | reshardDitStep | ditStepChunk => exact String.toList_append
  | _ => exact (List.append_nil _).symm

/-- Some characters tell the kinds of names apart. -/
def probe (chars : List Char) : List (Option Char) :=
  [chars[0]?, chars[1]?, chars[4]?, chars[8]?, chars[12]?]

def code : PlanTask → Nat
  | textEncode => 0
  | reshardTextToDit => 1
  | ditPrepare => 2
  | timestepPrepare => 3
  | reshardDitStep _ => 4
  | ditStepChunk _ => 5
  | reshardDitToAux => 6
  | vaeDecode => 7
  | finalize => 8

def probes : List (List (Option Char)) :=
  [[some 't', some 'e', some '_', some 'o', some '0'],
    [some 'r', some 'e', some 'a', some 't', some '_'],
    [some 'd', some 'i', some 'p', some 'a', some '0'],
    [some 't', some 'i', some 's', some '_', some 'p'],
    [some 'r', some 'e', some 'a', some 'd', some 's'],
    [some 'd', some 'i', some 's', some '_', some 'n'],
    [some 'r', some 'e', some 'a', some 'd', some 't'],
    [some 'v', some 'a', some 'd', some 'd', none],
    [some 'f', some 'i', some 'l', some ':', none]]

theorem probe_text (a : PlanTask) : probes[a.code]? = some (probe a.text.toList) := by
  rw [toList_text]
  cases a <;> simp [parts, probe, code, probes]

theorem code_eq {a b : PlanTask} (h : a.text = b.text) : a.code = b.code := by
  have hprobe : probes[a.code]? = probes[b.code]? := by rw [probe_text, probe_text, h]
  have hn : probes.Nodup := by decide
  have hlt : a.code < probes.length := by cases a <;> simp [code, probes]
  exact (List.getElem?_inj hlt hn).mp hprobe

theorem text_injective {a b : PlanTask} (h : a.text = b.text) : a = b := by
  have hcode := code_eq h
  have h := congrArg String.toList h
  rw [toList_text, toList_text] at h
  cases a <;> cases b <;> first | rfl | cases hcode
  all_goals exact congrArg _ (repr_inj (List.append_cancel_left h))

end PlanTask

-- ---------------------------------------------------------------------------
-- Artifacts
-- ---------------------------------------------------------------------------

inductive PlanArtifact
  | stateText | stateTextDit | stateLatent | stateTimestep
  | denoisedAt (idx : Nat)
  | moved (idx : Nat) (groupId : String)
  | denoised | denoisedAux | decoded | output
  | request

namespace PlanArtifact

def text : PlanArtifact → String
  | stateText => "state_text"
  | stateTextDit => "state_text_dit"
  | stateLatent => "state_latent"
  | stateTimestep => "state_timestep"
  | denoisedAt idx => s!"state_denoised_{idx}"
  | moved idx groupId => s!"state_denoised_{idx}_to_{groupId}_{idx + 1}"
  | denoised => "state_denoised"
  | denoisedAux => "state_denoised_aux"
  | decoded => "decoded"
  | output => "output"
  | request => "request"

def parts : PlanArtifact → String × List Char
  | stateText => ("state_text", [])
  | stateTextDit => ("state_text_dit", [])
  | stateLatent => ("state_latent", [])
  | stateTimestep => ("state_timestep", [])
  | denoisedAt idx => ("state_denoised_", idx.repr.toList)
  | moved idx groupId => ("state_denoised_", idx.repr.toList ++
      '_' :: ("to_".toList ++ groupId.toList ++ "_".toList ++ (idx + 1).repr.toList))
  | denoised => ("state_denoised", [])
  | denoisedAux => ("state_denoised_", "aux".toList)
  | decoded => ("decoded", [])
  | output => ("output", [])
  | request => ("request", [])

theorem toList_text (a : PlanArtifact) : a.text.toList = a.parts.1.toList ++ a.parts.2 := by
  cases a with
  | denoisedAt idx => exact String.toList_append
  | moved idx groupId =>
    have hto : "_to_".toList = '_' :: "to_".toList := by simp
    show ("state_denoised_" ++ idx.repr ++ "_to_" ++ groupId ++ "_" ++ (idx + 1).repr).toList = _
    simp only [parts, String.toList_append, hto, List.append_assoc, List.cons_append]
  | denoisedAux =>
    show "state_denoised_aux".toList = "state_denoised_".toList ++ "aux".toList
    simp only [String.reduceToList, List.cons_append, List.nil_append]
  | _ => exact (List.append_nil _).symm

def probe (chars : List Char) : List (Option Char) :=
  [chars[0]?, chars[6]?, chars[7]?, chars[10]?, chars[14]?]

def part : PlanArtifact → Nat
  | stateText => 0
  | stateTextDit => 1
  | stateLatent => 2
  | stateTimestep => 3
  | denoised => 4
  | denoisedAt _ | moved _ _ | denoisedAux => 5
  | decoded => 6
  | output => 7
  | request => 8

def probes : List (List (Option Char)) :=
  [[some 's', some 't', some 'e', none, none],
    [some 's', some 't', some 'e', some '_', none],
    [some 's', some 'l', some 'a', some 'n', none],
    [some 's', some 't', some 'i', some 's', none],
    [some 's', some 'd', some 'e', some 'i', none],
    [some 's', some 'd', some 'e', some 'i', some '_'],
    [some 'd', some 'd', none, none, none],
    [some 'o', none, none, none, none],
    [some 'r', some 't', none, none, none]]

theorem probe_text (a : PlanArtifact) : probes[a.part]? = some (probe a.text.toList) := by
  rw [toList_text]
  cases a <;> simp [parts, probe, part, probes]

theorem part_eq {a b : PlanArtifact} (h : a.text = b.text) : a.part = b.part := by
  have hprobe : probes[a.part]? = probes[b.part]? := by rw [probe_text, probe_text, h]
  have hn : probes.Nodup := by decide
  have hlt : a.part < probes.length := by cases a <;> simp [part, probes]
  exact (List.getElem?_inj hlt hn).mp hprobe

/-- What tells artifacts apart, whatever the groups are called. -/
def code : PlanArtifact → Nat × Nat
  | denoisedAt idx => (9, idx)
  | moved idx _ => (10, idx)
  | denoisedAux => (11, 0)
  | a => (a.part, 0)

theorem code_eq {a b : PlanArtifact} (h : a.text = b.text) : a.code = b.code := by
  have hpart := part_eq h
  replace h := congrArg String.toList h
  rw [toList_text, toList_text] at h
  cases a <;> cases b <;> first | rfl | cases hpart
  -- what is left begins with `state_denoised_`
  all_goals
    replace h := List.append_cancel_left h
    simp only [parts] at h
  case denoisedAt.denoisedAt => exact congrArg (Prod.mk 9) (repr_inj h)
  case moved.moved => exact congrArg (Prod.mk 10) (repr_append_inj (by simp) (by simp) h)
  case denoisedAt.moved idx _ _ =>
    exact absurd (h ▸ by simp) (not_mem_repr (c := '_') idx rfl)
  case moved.denoisedAt idx =>
    exact absurd (h ▸ by simp) (not_mem_repr (c := '_') idx rfl)
  case denoisedAt.denoisedAux idx =>
    exact absurd (h ▸ by simp) (not_mem_repr (c := 'a') idx rfl)
  case denoisedAux.denoisedAt idx =>
    exact absurd (h ▸ by simp) (not_mem_repr (c := 'a') idx rfl)
  case moved.denoisedAux =>
    have hm : '_' ∈ "aux".toList := h ▸ by simp
    simp at hm
  case denoisedAux.moved =>
    have hm : '_' ∈ "aux".toList := h ▸ by simp
    simp at hm

end PlanArtifact

end GfDit
