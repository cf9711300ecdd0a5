import Keymap.Proofs.QmkKeymap
import Keymap.Proofs.ZmkLayers
import Mathlib.Data.List.Infix

namespace Keymap.Qmk

open List

theorem replaceFrom_single (old : Char) (new cs : List Char) :
    Text.replaceFrom [old] new 0 cs = cs.flatMap fun c => if c = old then new else [c] := by
  induction cs with
  | nil => rfl
  | cons c cs ih =>
    rw [Text.replaceFrom, flatMap_cons]
    by_cases h : c = old
    · subst h
      simp [ih]
    · simp [h, Ne.symm h, ih]

def escaped (c : Char) : List Char :=
  if c = '\\' then ['\\', '\\'] else if c = '"' then ['\\', '"'] else [c]

theorem escapeLiteral_toList (s : String) : (escapeLiteral s).toList = s.toList.flatMap escaped := by
  have hq : "\"".toList = ['"'] ∧ "\\\"".toList = ['\\', '"'] := by decide
  have hs : "\\".toList = ['\\'] ∧ "\\\\".toList = ['\\', '\\'] := by decide
  simp only [escapeLiteral, Text.replace, hq, hs, isEmpty_cons, Bool.false_eq_true, if_false,
    String.toList_ofList, replaceFrom_single, flatMap_assoc]
  refine flatMap_congr fun c _ => ?_
  unfold escaped
  by_cases h : c = '\\'
  · simp [h]
  · simp [h]

end Keymap.Qmk
