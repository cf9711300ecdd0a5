import Keymap.Proofs.CompiledKeys
import Keymap.Proofs.Steps

namespace Keymap

open List

namespace Zmk

theorem homeRowMod_outcomes (v : Vocabulary) (magic : Option MagicConfig) (size size' : LayoutSize)
    (layer : Document) (i : Int) (args : Arguments) :
    Outcomes (fun _ _ => True) (homeRowMod ⟨v, magic, size⟩ ⟨layer, .whole i⟩ args)
      (homeRowMod ⟨v, magic, size'⟩ ⟨layer, .whole i⟩ args) := by
  have h : ∀ size, isLeft size (.whole i) = .ok (isLeftOf size (.whole i)) := fun _ => rfl
  simp only [homeRowMod, h]
  cases argumentNamed args "mod" with
  | error fault => exact .error fault
  | ok mod =>
    cases argumentNamed args "key" with
    | error fault => exact .error fault
    | ok key => exact .ok trivial

theorem composite_outcomes (v : Vocabulary) (magic : Option MagicConfig) (size size' : LayoutSize)
    (layer : Document) (i : Int) (key : String) :
    Outcomes (fun _ _ => True) (composite ⟨v, magic, size⟩ ⟨layer, .whole i⟩ key)
      (composite ⟨v, magic, size'⟩ ⟨layer, .whole i⟩ key) := by
  have h : argument ⟨v, magic, size⟩ ⟨layer, .whole i⟩ = argument ⟨v, magic, size'⟩ ⟨layer, .whole i⟩ := rfl
  have ht : magicTap ⟨v, magic, size⟩ ⟨layer, .whole i⟩ = magicTap ⟨v, magic, size'⟩ ⟨layer, .whole i⟩ := rfl
  unfold composite
  simp only [h, ht]
  split
  · exact .same _
  · exact .same _
  · split
    · exact .same _
    · apply Outcomes.bind_same
      intro supported
      split
      · exact .same _
      · apply Outcomes.bind_same
        intro _
        split
        · exact .same _
        · exact .same _
        · apply Outcomes.bind_same
          intro args
          split
          · exact homeRowMod_outcomes v magic size size' layer i args
          · exact .same _
  · exact .same _

theorem value_outcomes {t t' : Encoder} (hv : t'.vocabulary = t.vocabulary)
    (h : t'.magic = t.magic) (layer : Document) (i : Int) (key : String) :
    Outcomes (fun _ _ => True) (value t ⟨layer, .whole i⟩ key) (value t' ⟨layer, .whole i⟩ key) := by
  obtain ⟨v, m, size⟩ := t
  obtain ⟨v', m', size'⟩ := t'
  obtain rfl : v' = v := hv
  obtain rfl : m' = m := h
  unfold value
  split
  · exact .same _
  · cases v'.keycode? key with
    | some entry => exact .same _
    | none =>
      dsimp only
      split
      · exact (composite_outcomes v' m' size size' layer i key).map fun _ _ _ => trivial
      · exact .same _

end Zmk

namespace Compile

theorem encodeKeys_fst (v : Vocabulary) (encode : Nat → String → Result Document) (index : Nat)
    (morphs : List ShiftMorph) (keys : List String) : (encodeKeys v encode index morphs keys).1 =
      (keys.zipIdx index).mapM fun entry => encode entry.2 entry.1 := by
  induction keys generalizing index morphs with
  | nil => rfl
  | cons key rest ih =>
    rw [encodeKeys, zipIdx_cons, mapM_cons]
    cases encode index key with
    | error fault => rfl
    | ok code =>
      rw [← ih (index + 1) (v.noteMorph key morphs)]
      rfl

end Compile

namespace Compiler

variable {c c' : Compiler} {compiled : CompiledLayer} {layer : Layer} {board : Board}

def valueAt (c : Compiler) (board : Board) (layer : Document) (i : Nat) (key : String) :
    Result Document :=
  if board.firmware.isQmk then Qmk.value c.qmk key
  else Zmk.value c.zmk ⟨if board.firmware.isZmk then layer else .null, .whole i⟩ key

def checkAt (c : Compiler) (board : Board) (title key : String) : Result Unit :=
  if board.firmware.isQmk then Qmk.checkBinding c.qmk title key
  else Zmk.checkBinding c.zmk title key

theorem compile_fst (c : Compiler) (layer : Layer) (board : Board) :
    (c.compile layer board).1 = do
      let keys ← Compile.keys layer board
      keys.forM (c.checkAt board layer.title)
      let codes ← keys.zipIdx.mapM fun entry => c.valueAt board layer.name entry.2 entry.1
      return ⟨layer.name, codes⟩ := by
  unfold compile
  cases hf : board.firmware.isQmk with
  | true =>
    have hc : c.checkAt board layer.title = Qmk.checkBinding c.qmk layer.title := by
      funext key
      simp [checkAt, hf]
    simp only [if_true, compileQmk, hc, valueAt, hf]
    cases Compile.keys layer board with
    | error fault => rfl
    | ok keys =>
      cases h : keys.forM (Qmk.checkBinding c.qmk layer.title) with
      | error fault => simp only [h, Bind.bind, Except.bind]
      | ok _ =>
        simp only [h, Compile.encodeKeys_fst, ok_bind]
        rfl
  | false =>
    have hc : c.checkAt board layer.title = Zmk.checkBinding c.zmk layer.title := by
      funext key
      simp [checkAt, hf]
    simp only [Bool.false_eq_true, if_false, compileZmk, hc, valueAt, hf]
    cases Compile.keys layer board with
    | error fault => rfl
    | ok keys =>
      cases h : keys.forM (Zmk.checkBinding c.zmk layer.title) with
      | error fault => simp only [h, Bind.bind, Except.bind]
      | ok _ =>
        simp only [h, Compile.encodeKeys_fst, ok_bind]
        rfl

def Encodes (c : Compiler) (board : Board) (layer : Layer) (compiled : CompiledLayer) : Prop :=
  compiled.name = layer.name ∧ ∃ keys, Compile.keys layer board = .ok keys ∧
    (keys.zipIdx.mapM fun entry => c.valueAt board layer.name entry.2 entry.1) = .ok compiled.keycodes

theorem compile_encodes (h : (c.compile layer board).1 = .ok compiled) : c.Encodes board layer compiled := by
  rw [compile_fst] at h
  obtain ⟨keys, hk, h⟩ := bind_eq_ok.mp h
  obtain ⟨_, -, h⟩ := bind_eq_ok.mp h
  obtain ⟨codes, hc, h⟩ := bind_eq_ok.mp h
  obtain rfl := pure_eq_ok.mp h
  exact ⟨rfl, keys, hk, hc⟩

theorem compile_rules (c : Compiler) (layer : Layer) (board : Board) :
    (c.compile layer board).2.qmk = c.qmk ∧ (c.compile layer board).2.zmk = c.zmk := by
  unfold compile compileQmk compileZmk
  split
  · split
    · exact ⟨rfl, rfl⟩
    · split <;> exact ⟨rfl, rfl⟩
  · split
    · exact ⟨rfl, rfl⟩
    · split <;> exact ⟨rfl, rfl⟩

/-- Two compilers with the same rules. They may have met different keys, and may have been made ready
for boards of different sizes. -/
structure SameRules (c c' : Compiler) : Prop where
  qmk : c'.qmk = c.qmk
  vocabulary : c'.zmk.vocabulary = c.zmk.vocabulary
  magic : c'.zmk.magic = c.zmk.magic

structure SameFor (board : Board) (c c' : Compiler) : Prop where
  rules : c.SameRules c'
  qmkMorphs : board.firmware.isQmk = true → c'.qmkMorphs = c.qmkMorphs
  zmk : board.firmware.isQmk = false → c'.zmk = c.zmk ∧ c'.zmkMorphs = c.zmkMorphs

instance : Std.Refl SameRules := ⟨fun _ => ⟨rfl, rfl, rfl⟩⟩

instance : IsTrans Compiler SameRules :=
  ⟨fun _ _ _ first next => ⟨next.qmk.trans first.qmk, next.vocabulary.trans first.vocabulary,
    next.magic.trans first.magic⟩⟩

theorem SameRules.symm (h : c.SameRules c') : c'.SameRules c :=
  ⟨h.qmk.symm, h.vocabulary.symm, h.magic.symm⟩

theorem compile_sameRules (c : Compiler) (layer : Layer) (board : Board) :
    c.SameRules (c.compile layer board).2 := by
  obtain ⟨qmk, zmk⟩ := c.compile_rules layer board
  exact ⟨qmk, by rw [zmk], by rw [zmk]⟩

theorem SameFor.compile (hs : SameFor board c c') (layer : Layer) :
    (c'.compile layer board).1 = (c.compile layer board).1 ∧
      SameFor board (c.compile layer board).2 (c'.compile layer board).2 := by
  have hrl : (c.compile layer board).2.SameRules (c'.compile layer board).2 :=
    trans_of SameRules (c.compile_sameRules layer board).symm
      (trans_of SameRules hs.rules (c'.compile_sameRules layer board))
  cases hf : board.firmware.isQmk with
  | true =>
    have h := hs.qmkMorphs hf
    have hr : (c'.compile layer board).1 = (c.compile layer board).1 ∧
        (c'.compile layer board).2.qmkMorphs = (c.compile layer board).2.qmkMorphs := by
      simp only [Compiler.compile, compileQmk, hf, if_true, hs.rules.qmk, h]
      cases Compile.keys layer board with
      | error fault => exact ⟨rfl, h⟩
      | ok keys =>
        cases hc : keys.forM (Qmk.checkBinding c.qmk layer.title) with
        | error fault => simp only [hc, h, and_self]
        | ok _ => simp only [hc, and_self]
    exact ⟨hr.1, hrl, fun _ => hr.2, fun ho => absurd (hf.symm.trans ho) (by decide)⟩
  | false =>
    obtain ⟨zmk, h⟩ := hs.zmk hf
    have hr : (c'.compile layer board).1 = (c.compile layer board).1 ∧
        (c'.compile layer board).2.zmk = (c.compile layer board).2.zmk ∧
        (c'.compile layer board).2.zmkMorphs = (c.compile layer board).2.zmkMorphs := by
      simp only [Compiler.compile, compileZmk, hf, Bool.false_eq_true, if_false, zmk, h]
      cases Compile.keys layer board with
      | error fault => exact ⟨rfl, zmk, h⟩
      | ok keys =>
        cases hc : keys.forM (Zmk.checkBinding c.zmk layer.title) with
        | error fault => simp only [hc, zmk, h, and_self]
        | ok _ => simp only [hc, and_self]
    exact ⟨hr.1, hrl, fun ho => absurd (hf.symm.trans ho) (by decide),
      fun _ => hr.2⟩

theorem SameRules.compile_outcomes (h : c.SameRules c') (layer : Layer) (board : Board) :
    Outcomes (fun _ _ => True) (c.compile layer board).1 (c'.compile layer board).1 := by
  have hc : c'.checkAt board layer.title = c.checkAt board layer.title := by
    funext key
    simp only [checkAt, Zmk.checkBinding, h.qmk, h.vocabulary]
  rw [compile_fst, compile_fst, hc]
  apply Outcomes.bind_same
  intro keys
  apply Outcomes.bind_same
  intro _
  have hv : ∀ entry ∈ keys.zipIdx, Outcomes (fun _ _ => True)
      (c.valueAt board layer.name entry.2 entry.1) (c'.valueAt board layer.name entry.2 entry.1) := by
    intro entry _
    unfold valueAt
    split
    · rw [h.qmk]
      exact .same _
    · exact Zmk.value_outcomes h.vocabulary h.magic _ _ _
  apply (Outcomes.mapM hv).bind
  intro codes codes' _
  exact .ok trivial

theorem Encodes.congr (qmk : c'.qmk = c.qmk) (zmk : c'.zmk = c.zmk) (h : c'.Encodes board layer compiled) :
    c.Encodes board layer compiled := by
  simp only [Encodes, valueAt, qmk, zmk] at h
  exact h

theorem Encodes.getElem? {keys : List String} {i : Nat} {key : String}
    (he : c.Encodes board layer compiled) (isKeys : Compile.keys layer board = .ok keys)
    (hp : keys[i]? = some key) :
    ∃ code, compiled.keycodes[i]? = some code ∧ c.valueAt board layer.name i key = .ok code := by
  obtain ⟨-, keys', hks, hv⟩ := he
  obtain rfl := Except.ok.inj (isKeys.symm.trans hks)
  have hr := forall₂_iff_get.mp (mapM_eq_ok.mp hv)
  obtain ⟨hb, hk⟩ := List.getElem?_eq_some_iff.mp hp
  have h : i < compiled.keycodes.length := by
    rw [← hr.1, length_zipIdx]
    exact hb
  refine ⟨compiled.keycodes[i], getElem?_eq_getElem h, ?_⟩
  have hh := hr.2 i (by rwa [length_zipIdx]) h
  simpa [hk] using hh

end Compiler

namespace Generate

variable {verbose : Bool} {layer : Layer} {session after : Session} {layers : List Layer} {b board : Board}
  {compiled : List CompiledLayer}

theorem Run.compile_encodes {compiled : CompiledLayer}
    (h : (Run.compile layer board).run.run session = (.ok compiled, after)) :
    session.compiler.Encodes board layer compiled ∧
      after.compiler.qmk = session.compiler.qmk ∧ after.compiler.zmk = session.compiler.zmk := by
  rw [Run.run_compile] at h
  obtain ⟨hc, rfl⟩ := Prod.mk.inj h
  exact ⟨Compiler.compile_encodes hc, session.compiler.compile_rules layer board⟩

def included (b : Board) (layer : Layer) : Bool :=
  (includes b layer).toOption.getD false

theorem included_of_includes {answer : Bool} (h : includes b layer = .ok answer) :
    included b layer = answer := by
  rw [included, h]
  rfl

theorem compileLayers_included {s s' : Session}
    (h : (compileLayers verbose b layers).run.run s = (.ok compiled, s')) :
    Forall₂ (s.compiler.Encodes b) (layers.filter (included b)) compiled := by
  induction layers generalizing s s' compiled with
  | nil =>
    obtain ⟨rfl, -⟩ := run_pure_eq_ok.mp h
    exact .nil
  | cons layer rest ih =>
    rw [compileLayers] at h
    obtain ⟨answer, _, ha, h⟩ := run_bind_eq_ok.mp h
    obtain ⟨han, rfl⟩ := run_liftM_eq_ok.mp ha
    have hi := included_of_includes han
    cases answer with
    | true =>
      obtain ⟨_, _, hs, h⟩ := run_bind_eq_ok.mp h
      obtain ⟨first, _, hf, h⟩ := run_bind_eq_ok.mp h
      obtain ⟨others, _, ho, h⟩ := run_bind_eq_ok.mp h
      obtain ⟨rfl, -⟩ := run_pure_eq_ok.mp h
      obtain ⟨he, qmk, zmk⟩ := Run.compile_encodes hf
      rw [Run.compiler_sayIf hs] at he qmk zmk
      rw [filter_cons_of_pos hi]
      exact .cons he ((ih ho).imp fun _ _ => Compiler.Encodes.congr qmk zmk)
    | false =>
      obtain ⟨_, _, hs, h⟩ := run_bind_eq_ok.mp h
      have others := ih h
      rw [Run.compiler_sayIf hs] at others
      rwa [filter_cons_of_neg (by simp [hi])]

theorem compileLayers_encodes
    (h : (compileLayers verbose board layers).run.run session = (.ok compiled, after)) :
    ∀ one ∈ compiled, ∃ layer ∈ layers, session.compiler.Encodes board layer one := by
  intro one hm
  obtain ⟨layer, hk, he⟩ := forall₂_mem_right (compileLayers_included h) hm
  exact ⟨layer, (mem_filter.mp hk).1, he⟩

end Generate

end Keymap
