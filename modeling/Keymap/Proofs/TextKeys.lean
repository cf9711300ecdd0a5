import Keymap.Proofs.QmkMagic
import Keymap.Proofs.ZmkLayers
import Keymap.Qmk.Files
import Mathlib.Data.List.Infix

namespace Keymap.Qmk

open List

theorem word_eq_ok {d : Document} {part s : String} (h : d.word part = .ok s) : d = .text s := by
  cases d with
  | text t => rw [Except.ok.inj h]
  | _ => cases h

theorem capitals_eq_ok {combo : Combo} {s : String} (h : capitals combo = .ok s) :
    s = Text.upper combo.title := by
  obtain ⟨name, ht, rfl⟩ := map_eq_ok.mp h
  rw [Combo.title, word_eq_ok ht, Document.toText]

theorem textKeyName_eq {combo : Combo} {name : String} (h : textKeyName combo = .ok name) :
    name = "MACRO_" ++ Text.upper combo.title := by
  obtain ⟨s, hc, h⟩ := bind_eq_ok.mp h
  rw [← capitals_eq_ok hc, pure_eq_ok.mp h]

theorem map_eq_of_forall₂ {α β γ : Type} {xs : List α} {ys : List β} {f : α → γ} {g : β → γ}
    (h : Forall₂ (fun x y => f x = g y) xs ys) : xs.map f = ys.map g := by
  induction h with
  | nil => rfl
  | cons hh _ ih => rw [map_cons, map_cons, hh, ih]

def textKeyOf (combo : Combo) : String :=
  "MACRO_" ++ Text.upper combo.title

def textKeysIn (combos : List Combo) : TextKeys :=
  (combos.filter fun c => !c.macroText.isNull).map fun c => (textKeyOf c, c.macroText.toText)

theorem comboTextKeys_eq {combos : List Combo} {keys : TextKeys} (h : comboTextKeys combos = .ok keys) :
    keys = textKeysIn combos := by
  rw [textKeysIn, map_eq_of_forall₂ (g := id) ((mapM_eq_ok.mp h).imp fun c key hk => ?_), map_id]
  obtain ⟨name, hn, h⟩ := bind_eq_ok.mp hk
  rw [← pure_eq_ok.mp h, textKeyName_eq hn, textKeyOf, id]

end Keymap.Qmk
