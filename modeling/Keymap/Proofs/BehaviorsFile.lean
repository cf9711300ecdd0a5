import Keymap.Proofs.Assignments
import Keymap.Proofs.Steps
import Keymap.Zmk.Files

namespace Keymap.Zmk

variable {settings : Settings} {s : Source} {table table' : BehaviorTable} {refs : MacroRefs}
  {names : List String}

def SameOn (names : List String) (table table' : BehaviorTable) : Prop :=
  ∀ name ∈ names, table.lookup name = table'.lookup name

theorem SameOn.assign (same : SameOn names table table') (name : String) (properties : Properties) :
    SameOn (name :: names) (assign name properties table) (assign name properties table') := by
  intro other hm
  rw [lookup_assign, lookup_assign]
  by_cases h : other = name
  · simp [h]
  · simpa [h] using same other ((List.mem_cons.mp hm).resolve_left h)

theorem seedBehaviors_same (behaviors : Behaviors) (table table' : BehaviorTable) :
    SameOn ["mt", "lt"] (seedBehaviors behaviors table) (seedBehaviors behaviors table') := by
  have hn : SameOn [] table table' := fun name h => absurd h List.not_mem_nil
  exact (hn.assign "lt" _).assign "mt" _

def wrappedNames : List String := ["hmr", "hml", "mt", "lt"]

theorem withHomeRow_same (behaviors : Behaviors) (size : LayoutSize) (same : SameOn ["mt", "lt"] table table') :
    SameOn wrappedNames (withHomeRow behaviors size table) (withHomeRow behaviors size table') :=
  (same.assign "hml" _).assign "hmr" _

section Sections

variable (same : SameOn wrappedNames table table') (keycodes : Entries)

include same

theorem magicSection_same (refs : MacroRefs) :
    magicSection keycodes table refs = magicSection keycodes table' refs := by
  have h : magicWrapper table "lt" = magicWrapper table' "lt" := by
    funext hold family
    rw [magicWrapper, same "lt" (by decide), magicWrapper]
  have hm : magicWrapper table "mt" = magicWrapper table' "mt" := by
    funext hold family
    rw [magicWrapper, same "mt" (by decide), magicWrapper]
  have hl : magicKeyLines keycodes table refs = magicKeyLines keycodes table' refs := by
    funext m
    simp only [magicKeyLines, h, hm]
  funext magic
  simp only [magicSection, hl]

theorem wrapLayers_same (kind : String) : wrapLayers keycodes table kind = wrapLayers keycodes table' kind := by
  have hhr : wrapHomeRow table kind = wrapHomeRow table' kind := by
    funext t k
    have hh : table.lookup (handLabel k.hand) = table'.lookup (handLabel k.hand) := by
      cases k.hand with
      | left => exact same "hml" (by decide)
      | right => exact same "hmr" (by decide)
    simp only [wrapHomeRow, hh]
  have h : wrapBinding keycodes table kind = wrapBinding keycodes table' kind := by
    funext trained b
    simp only [wrapBinding, hhr]
  funext family layers
  simp only [wrapLayers, h]

theorem behaviorSections_same (settings : Settings) (refs : MacroRefs) (s : Source) :
    behaviorSections settings table refs s = behaviorSections settings table' refs s := by
  have h := magicSection_same same settings.keycodes refs
  have ht : magicTrainingSection settings.keycodes table refs =
      magicTrainingSection settings.keycodes table' refs := by
    funext config layers
    simp only [magicTrainingSection, wrapLayers_same same]
  have combos : comboTrainingSection settings.keycodes table =
      comboTrainingSection settings.keycodes table' := by
    funext combos layers
    simp only [comboTrainingSection, wrapLayers_same same]
  rw [behaviorSections, h, ht, combos, behaviorSections]

end Sections

def Seeded (p p' : Progress) : Prop :=
  p.macros = p'.macros ∧ SameOn ["mt", "lt"] p.table p'.table

def Completed (p p' : Progress) : Prop :=
  p.macros = p'.macros ∧ SameOn wrappedNames p.table p'.table

theorem Completed.seeded {p p' : Progress} (h : Completed p p') : Seeded p p' :=
  ⟨h.1, fun name hm => h.2 name (List.mem_cons_of_mem _ (List.mem_cons_of_mem _ hm))⟩

theorem run_define (settings : Settings) (requests : List (Result MacroRequest)) (p : Progress) :
    (define settings requests).run.run p = ((defineMacros settings.keycodes p.macros requests).1,
        { p with macros := (defineMacros settings.keycodes p.macros requests).2 }) := by
  unfold define
  rw [run_bind, show (getThe Progress : Generating Progress).run.run p = (.ok p, p) from rfl]
  dsimp only
  rcases defineMacros settings.keycodes p.macros requests with ⟨result, macros⟩
  cases result with
  | error fault => rfl
  | ok definitions => rfl

theorem define_agree (settings : Settings) (requests : List (Result MacroRequest)) :
    Agree Seeded Eq (define settings requests) (define settings requests) := by
  rintro p p' ⟨h, same⟩
  rw [run_define, run_define, h]
  exact ⟨.refl _, rfl, same⟩

theorem Agree.afterHomeRow {α : Type} {size : LayoutSize} {f : String → Generating α}
    (hn : ∀ home, Agree Completed Eq (f home) (f home)) :
    Agree Seeded Eq (homeRow settings size >>= f) (homeRow settings size >>= f) := by
  rintro p p' ⟨hm, same⟩
  have h : Completed { p with table := withHomeRow settings.behaviors size p.table }
      { p' with table := withHomeRow settings.behaviors size p'.table } :=
    ⟨hm, withHomeRow_same settings.behaviors size same⟩
  obtain ⟨ho, hs⟩ := hn (homeRowSection settings.behaviors size) _ _ h
  rw [run_bind, run_bind]
  exact ⟨ho, hs.seeded⟩

theorem keymapFile_agree (settings : Settings) (s : Source) :
    Agree Seeded Eq (keymapFile settings s) (keymapFile settings s) := by
  unfold keymapFile
  extract_lets size shield afterCombos
  have h : ∀ combos, Agree Seeded Eq (afterCombos combos) (afterCombos combos) := by
    intro combos
    unfold afterCombos
    apply (define_agree settings _).bind
    rintro comboMacros _ rfl
    apply ((define_agree settings _).bind fun magicMacros _ same => .pure (congrArg _ same)).bind
    rintro ⟨magicMacros, refs⟩ _ rfl
    apply Agree.afterHomeRow
    intro home
    apply Agree.get.bind
    rintro p p' ⟨-, same⟩
    have ho : Outcomes Eq (behaviorSections settings p.table refs s)
        (behaviorSections settings p'.table refs s) := by
      rw [behaviorSections_same same]
      exact .refl _
    apply Agree.bind (.lifted ho)
    rintro ⟨sections, replacements⟩ _ rfl
    apply Agree.bind (.lifted (.refl _))
    rintro layers _ rfl
    exact .pure rfl
  clear_value afterCombos
  split
  · exact h _
  · exact Agree.bind (.lifted (.refl _)) fun text _ same => same ▸ h _

theorem ofFile_eq_ok {file : BehaviorsFile} {p : Progress} (h : Progress.ofFile settings file = .ok p) :
    ∃ text, p = .start settings text := by
  cases file with
  | absent | refused => exact ⟨none, (Except.ok.inj h).symm⟩
  | contents bytes =>
    rw [Progress.ofFile] at h
    split at h
    · exact ⟨_, (Except.ok.inj h).symm⟩
    · cases h

theorem exists_ofFile_iff {file : BehaviorsFile} : (∃ p, Progress.ofFile settings file = .ok p) ↔
    ∀ bytes, file = .contents bytes → bytes.IsValidUTF8 := by
  cases file with
  | absent | refused => exact iff_of_true ⟨_, rfl⟩ nofun
  | contents bytes =>
    by_cases valid : bytes.IsValidUTF8
    · refine iff_of_true ?_ fun _ same => BehaviorsFile.contents.inj same ▸ valid
      rw [Progress.ofFile, String.fromUTF8?, dif_pos valid]
      exact ⟨_, rfl⟩
    · refine iff_of_false ?_ fun all => valid (all bytes rfl)
      rw [Progress.ofFile, String.fromUTF8?, dif_neg valid]
      exact fun ⟨_, made⟩ => nomatch made

end Keymap.Zmk
