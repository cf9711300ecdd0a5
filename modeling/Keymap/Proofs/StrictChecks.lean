import Keymap.Proofs.LayerNames
import Mathlib.Data.List.Nodup

namespace Keymap

open List

variable {d : Document} {requires context name : String}

def Entry.isKey : Entry → Bool
  | .key _ => true
  | .position _ => false

namespace Layer

def grids (layer : Layer) : List KeyGrid :=
  layer.core.toList ++ layer.fullLayout.toList

def startsAsName (name : String) : Bool :=
  name.toList.head?.any fun c => Text.isLetter c || c == '_'

/-- All entries stand for themselves, and the name can be that of an identifier. -/
def Literal (layer : Layer) : Prop :=
  (∀ grid ∈ layer.grids, ∀ entry ∈ grid.flatten, entry.isKey = true) ∧ startsAsName layer.title = true

instance (layer : Layer) : Decidable layer.Literal :=
  inferInstanceAs (Decidable (_ ∧ _))

theorem isWordChar_of_isName (h : isName name) {c : Char} (hm : c ∈ name.toList) : Text.isWordChar c := by
  simp only [isName, Bool.and_eq_true, all_eq_true] at h
  rw [Text.isWordChar, Bool.or_eq_true, beq_iff_eq]
  by_cases hu : c = '_'
  · exact .inr hu
  · refine .inl (h.2 c ?_)
    simpa [Text.replace] using Text.mem_replaceFrom_of_ne hm hu

theorem isIdentifier_of_isName (h : isName name) : isIdentifier name = startsAsName name := by
  have hw : name.toList.all Text.isWordChar := all_eq_true.mpr fun c hm => isWordChar_of_isName h hm
  have hu : Text.isUpper name := by
    simp only [isName, Bool.and_eq_true] at h
    exact h.1.1
  rw [isIdentifier, startsAsName]
  cases hc : name.toList with
  | nil => rfl
  | cons c cs =>
    rw [hc] at hw
    simp [hu, hw]

theorem checkTexts_requires (context : String) (entries : List Entry) :
    Requires (∀ entry ∈ entries, entry.isKey) (checkTexts context entries) fun _ => True := by
  have hc : Requires (∀ e ∈ entries.zipIdx, e.1.isKey) (checkTexts context entries)
      fun _ => True := by
    apply Requires.forM
    rintro ⟨entry, i⟩ -
    cases entry with
    | key code => exact (Requires.ok_of rfl trivial).congr (by simp [Entry.isKey])
    | position index =>
      refine ⟨fun hk => ?_, fun _ => ⟨_, rfl⟩⟩
      cases hk
  refine hc.congr ?_
  constructor
  · intro h entry hm
    obtain ⟨i, hf⟩ := mem_iff_getElem?.mp hm
    exact h (entry, i) (mk_mem_zipIdx_iff_getElem?.mpr hf)
  · exact fun h e hm => h e.1 (fst_mem_of_mem_zipIdx hm)

end Layer

theorem Extension.checkColumns_eq_ok {keys : Document} :
    checkColumns context requires keys = .ok () ↔ ∃ entries, keys = .record entries ∧
      ∀ name ∈ outerColumns, ((entries.lookup (.word name)).map isColumn).getD false := by
  cases keys with
  | record entries =>
    rw [checkColumns, check_eq_ok, bind_eq_ok]
    simp only [Document.record.injEq, exists_eq_left']
    constructor
    · rintro ⟨-, _, hc, -⟩ name h
      simpa using checks_eq_ok.mp hc name h
    · intro hc
      have hp : ∀ name ∈ outerColumns, (entries.lookup (.word name)).isSome := by
        intro name h
        have isColumn := hc name h
        cases hf : entries.lookup (.word name) with
        | none => simp [hf] at isColumn
        | some _ => rfl
      refine ⟨by simpa using hp, ⟨⟩, checks_eq_ok.mpr fun name h => ?_, rfl⟩
      simp [hc name h]
  | _ =>
    simp [checkColumns]

theorem Extension.checkColumns_of_validate {extensions : List Extension}
    (h : ∀ e ∈ extensions, e.validate = .ok ()) :
    (forIn extensions PUnit.unit fun e _ =>
      if e.kind = .word "3x6_3" then
        checkColumns context requires e.keys >>= fun _ => pure (ForInStep.yield PUnit.unit)
      else pure (ForInStep.yield PUnit.unit)) = (.ok PUnit.unit : Result PUnit) := by
  induction extensions with
  | nil => rfl
  | cons e rest ih =>
    rw [forall_mem_cons] at h
    rw [forIn_cons, ← ih h.2]
    by_cases hc : e.kind = .word "3x6_3"
    · have hf := h.1
      rw [validate, if_pos hc, checkColumns_eq_ok] at hf
      rw [if_pos hc, checkColumns_eq_ok.mpr hf]
      rfl
    · rw [if_neg hc]
      rfl

namespace Layer

variable {layer : Layer}

theorem checkStrictly_requires (hc : layer.Checked) (he : ∀ e ∈ layer.extensions, e.validate = .ok ()) :
    Requires (∀ grid ∈ layer.grids, ∀ entry ∈ grid.flatten, entry.isKey) layer.checkStrictly fun _ => True := by
  have h : ∀ {context requires : String}, (do
      let _ ← forIn layer.extensions PUnit.unit fun e _ =>
        if e.kind = .word "3x6_3" then do
          Extension.checkColumns context requires e.keys
          pure (ForInStep.yield PUnit.unit)
        else pure (ForInStep.yield PUnit.unit)
      pure ()) = (.ok () : Result Unit) := by
    intro context requires
    rw [Extension.checkColumns_of_validate he]
    rfl
  -- The first check has settled the size of the core and the columns, so only the texts remain.
  unfold checkStrictly grids
  cases hcr : layer.core with
  | none =>
    cases hf : layer.fullLayout with
    | none => exact absurd hc.keys (by simp [hcr, hf])
    | some full =>
      refine ((checkTexts_requires _ _).bind fun _ _ => Requires.ok_of h trivial).congr ?_
      simp
  | some core =>
    have hs := hc.core core hcr
    cases hf : layer.fullLayout with
    | none =>
      simp only [hs]
      refine ((checkTexts_requires _ _).bind fun _ _ => Requires.ok_of h trivial).congr ?_
      simp
    | some full =>
      simp only [hs]
      refine ((checkTexts_requires _ _).bind fun _ _ =>
        (checkTexts_requires _ _).bind fun _ _ => Requires.ok_of h trivial).congr ?_
      simp

end Layer

namespace Reading

variable {overlay : Option Document} {config : KeymapConfig}

theorem checkLayersStrictly_requires (hd : keymap d overlay = .ok config) :
    Requires (∀ l ∈ config.layers, l.Literal) (checkLayersStrictly config.layers) fun _ => True := by
  obtain ⟨_, entries, -, -, hr, hv, -⟩ := keymap_parts hd
  obtain ⟨_, hb, -⟩ := bind_eq_ok.mp hv
  have hc := KeymapConfig.checked_of_validate hv
  have hn : ∀ l ∈ config.layers, Layer.isIdentifier l.title = Layer.startsAsName l.title := by
    intro l h
    obtain ⟨name, ht, hnm⟩ := (hc l h).name
    have htt : l.title = name := by
      rw [Layer.title, ht]
      rfl
    rw [htt, Layer.isIdentifier_of_isName hnm]
  have hg : ∀ l ∈ config.layers,
      Requires (∀ grid ∈ l.grids, ∀ entry ∈ grid.flatten, entry.isKey) l.checkStrictly
        fun _ => True := by
    intro l h
    obtain ⟨e, -, one⟩ := forall₂_mem_right hr h
    exact Layer.checkStrictly_requires (hc l h) (extensions_validated one)
  unfold checkLayersStrictly
  rw [hb, ok_bind]
  refine (Requires.checks.bind fun _ _ => Requires.forM hg).congr ?_
  constructor
  · rintro ⟨hns, hk⟩ l h
    exact ⟨hk l h, by simpa [hn l h] using hns l h⟩
  · intro hl
    exact ⟨fun l h => by simp [hn l h, (hl l h).2],
      fun l h => (hl l h).1⟩

/-- The second check accepts a keymap that was read exactly if all its layers are literal, and refuses
it by one of its own rules otherwise. -/
theorem strict_check_iff_literal {d : Document} {overlay : Option Document} {config : KeymapConfig}
    (done : keymap d overlay = .ok config) :
    (checkLayersStrictly config.layers = .ok () ↔ ∀ l ∈ config.layers, l.Literal) ∧
    ((∃ message, checkLayersStrictly config.layers = .error (.invalid message)) ↔
      ∃ l ∈ config.layers, ¬ l.Literal) := by
  have check := checkLayersStrictly_requires done
  refine ⟨⟨fun accepted => (check.of_eq_ok accepted).1, fun literal => ?_⟩, ?_⟩
  · obtain ⟨_, accepted, -⟩ := check.1 literal
    exact accepted
  · rw [check.error_iff]
    simp

def mirrored : Document :=
  .record [("layers", .record [("BASE", .record [
    ("core", .list (List.replicate 6 (.list (List.replicate 6 "A")))),
    ("full_layout", .list ["L36_0", "ESC"])])])]

theorem mirrored_refused : ∃ config, keymap mirrored none = .ok config ∧
    ∃ message, checkLayersStrictly config.layers = .error (.invalid message) := by
  have refers : (keymap mirrored none).toOption.any
      (fun config => decide (∃ l ∈ config.layers, ¬ l.Literal)) = true := by decide
  obtain ⟨config, isConfig⟩ : ∃ config, keymap mirrored none = .ok config :=
    exists_eq_ok (by decide)
  rw [isConfig] at refers
  exact ⟨config, isConfig, (strict_check_iff_literal isConfig).2.mpr (of_decide_eq_true refers)⟩

end Reading

end Keymap
