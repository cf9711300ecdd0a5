import Keymap.Proofs.KeyTexts
import Keymap.Proofs.Texts
import Mathlib.Data.List.Nodup

namespace Keymap

open List

namespace OneShot

theorem isOneShot_iff {code : String} : isOneShot code ↔ ∃ rest, code = "osl:" ++ rest := by
  rw [isOneShot, Text.startsWith, isPrefixOf_iff_prefix]
  constructor
  · rintro ⟨rest, h⟩
    refine ⟨String.ofList rest, String.toList_inj.mp ?_⟩
    simpa using h.symm
  · rintro ⟨rest, rfl⟩
    exact ⟨rest.toList, String.toList_append.symm⟩

theorem split_oneShot (rest : String) : Text.split ':' ("osl:" ++ rest) =
    "osl" :: (Text.splitChars (· == ':') rest.toList).map String.ofList := by
  have h : Text.splitChars (· == ':') ("osl:" ++ rest).toList =
      "osl".toList :: Text.splitChars (· == ':') rest.toList := by
    rw [String.toList_append]
    rfl
  rw [Text.split, h, map_cons, String.ofList_toList]

theorem target?_oneShot_eq_some {rest name : String} : target? ("osl:" ++ rest) = some name ↔
    name = rest ∧ rest ≠ "" ∧ ':' ∉ rest.toList := by
  rw [target?, split_oneShot]
  by_cases hc : ':' ∈ rest.toList
  · obtain ⟨first, second, others, h⟩ := Text.splitChars_of_mem (· == ':') hc (beq_self_eq_true ':')
    simp [h, hc]
  · rw [Text.splitChars_of_not_mem hc, map_cons, map_nil, String.ofList_toList]
    by_cases he : rest = ""
    · simp [he]
    · have hp : rest.isEmpty = false := by simpa using he
      simp only [hp, Bool.false_eq_true, if_false, Option.some.injEq]
      exact ⟨fun hs => ⟨hs.symm, he, hc⟩, fun h => h.1.symm⟩

end OneShot

namespace KeymapConfig

variable {config : KeymapConfig} {name : String}

/-- What the parts of a keymap promise: its layers are named by texts, each name once, and its
extensions give their keys by place. -/
structure WellFormed (config : KeymapConfig) : Prop where
  named : ∀ layer ∈ config.layers, ∃ name, layer.name = .text name
  distinct : (config.layers.map (·.name)).Nodup
  records : ∀ layer ∈ config.layers, ∀ e ∈ layer.extensions, ∃ entries, e.keys = .record entries

def IsLayer (config : KeymapConfig) (name : String) : Prop :=
  ∃ layer ∈ config.layers, layer.name = .text name

def IsUpTo (config : KeymapConfig) (i : Nat) (name : String) : Prop :=
  ∃ j ≤ i, ∃ layer, config.layers[j]? = some layer ∧ layer.name = .text name

theorem IsUpTo.isLayer {i : Nat} (hu : config.IsUpTo i name) : config.IsLayer name := by
  obtain ⟨j, -, layer, hp, h⟩ := hu
  exact ⟨layer, mem_of_getElem? hp, h⟩

/-- A one-shot key on the layer `name` itself, or on a later one, holds `name`. -/
def NeedsShadow (config : KeymapConfig) (name : String) : Prop :=
  ∃ i source, config.layers[i]? = some source ∧ source.HasKey ("osl:" ++ name) ∧
    config.IsUpTo i name

theorem NeedsShadow.isLayer (needed : config.NeedsShadow name) : config.IsLayer name := by
  obtain ⟨_, _, _, _, upTo⟩ := needed
  exact upTo.isLayer

/-- Why no shadows can be added: a one-shot key that does not name a layer by a text without a
colon, one that names a layer which is not there, or a shadow whose name is taken. -/
inductive Obstructed (config : KeymapConfig) : Prop
  | malformed {layer : Layer} {rest : String} (member : layer ∈ config.layers)
      (key : layer.HasKey ("osl:" ++ rest)) (bad : rest = "" ∨ ':' ∈ rest.toList)
  | unknown {layer : Layer} {name : String} (member : layer ∈ config.layers)
      (key : layer.HasKey ("osl:" ++ name)) (missing : ¬ config.IsLayer name)
  | taken {name : String} (needed : config.NeedsShadow name)
      (present : config.IsLayer (name ++ "_SHADOW"))

end KeymapConfig

namespace OneShot

variable {config : KeymapConfig} {i : Nat} {name : String}

variable {layer : Layer}

theorem findIdx_of_nodup {α : Type} {xs : List α} {p : α → Bool} {x : α} (hd : xs.Nodup)
    (hf : xs[i]? = some x) (h : ∀ y ∈ xs, p y ↔ y = x) : xs.findIdx p = i := by
  obtain ⟨hb, rfl⟩ := List.getElem?_eq_some_iff.mp hf
  refine (findIdx_eq hb).mpr ⟨(h _ (getElem_mem _)).mpr rfl, fun j hbf => ?_⟩
  rw [← Bool.not_eq_true, h _ (getElem_mem _), hd.getElem_inj_iff]
  omega

theorem isWord_iff {d : Document} {s : String} : d.isWord s ↔ d = .text s := by
  cases d <;> simp [Document.isWord]

theorem isNamed_iff : isNamed (config.layers.map (·.name)) name ↔ config.IsLayer name := by
  simp [isNamed, KeymapConfig.IsLayer, isWord_iff]

theorem findIdx_word (wf : config.WellFormed) {j : Nat}
    (h : config.layers[j]? = some layer) (hn : layer.name = .text name) :
    (config.layers.map (·.name)).findIdx (fun d => d.isWord name) = j :=
  findIdx_of_nodup wf.distinct (by rw [getElem?_map, h, ← hn]; rfl)
    fun _ _ => isWord_iff

theorem findIdx_same (wf : config.WellFormed) (h : config.layers[i]? = some layer) :
    (config.layers.map (·.name)).findIdx (fun d => d.same layer.name) = i := by
  obtain ⟨own, ht⟩ := wf.named layer (mem_of_getElem? h)
  refine findIdx_of_nodup wf.distinct (by rw [getElem?_map, h]; rfl) fun d hm => ?_
  obtain ⟨other, hk, rfl⟩ := mem_map.mp hm
  obtain ⟨name, hn⟩ := wf.named other hk
  change other.name.same layer.name ↔ other.name = layer.name
  rw [ht, hn, Document.same, isWord_iff, eq_comm]

theorem collides_iff (wf : config.WellFormed) {source : Layer} (hf : config.layers[i]? = some source)
    (hl : config.IsLayer name) :
    collides (config.layers.map (·.name)) source.name name ↔ config.IsUpTo i name := by
  obtain ⟨layer, hm, h⟩ := hl
  obtain ⟨j, hp⟩ := mem_iff_getElem?.mp hm
  rw [collides, findIdx_word wf hp h, findIdx_same wf hf, decide_eq_true_iff]
  constructor
  · exact fun hu => ⟨j, hu, layer, hp, h⟩
  · rintro ⟨k, hu, other, hpl, hn⟩
    have hs : j = k := by
      rw [← findIdx_word wf hp h, findIdx_word wf hpl hn]
    omega

theorem target_requires (source : Document) (rest : String) :
    Requires ((rest ≠ "" ∧ ':' ∉ rest.toList) ∧ config.IsLayer rest)
      (target (config.layers.map (·.name)) source ("osl:" ++ rest))
      fun name => name = rest ∧ config.IsLayer name := by
  cases h : target? ("osl:" ++ rest) with
  | none =>
    have bad : ¬ (rest ≠ "" ∧ ':' ∉ rest.toList) := by
      intro hg
      rw [target?_oneShot_eq_some.mpr ⟨rfl, hg⟩] at h
      cases h
    refine ⟨fun hh => absurd hh.1 bad, fun _ => ?_⟩
    rw [target, h]
    exact ⟨_, rfl⟩
  | some name =>
    obtain ⟨rfl, hg⟩ := target?_oneShot_eq_some.mp h
    by_cases ht : isNamed (config.layers.map (·.name)) name
    · refine ⟨fun _ => ⟨name, ?_, rfl, isNamed_iff.mp ht⟩, fun hf => absurd ⟨hg, isNamed_iff.mp ht⟩ hf⟩
      rw [target, h]
      simp only [ht, if_true]
    · refine ⟨fun hh => absurd (isNamed_iff.mpr hh.2) ht, fun _ => ?_⟩
      rw [target, h]
      simp only [ht]
      exact ⟨_, rfl⟩

end OneShot

end Keymap
