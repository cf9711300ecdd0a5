import Keymap.Generate.Board
import Keymap.Proofs.Assignments
import Keymap.Proofs.Outcome

namespace Keymap

variable {layer : Layer} {morphs : List ShiftMorph} {board : Board} {v : Vocabulary}
  {compiled : CompiledLayer}

def Layer.KeyOn (layer : Layer) (board : Board) (key : String) : Prop :=
  ∃ keys, Compile.keys layer board = .ok keys ∧ key ∈ keys

/-- A layer that was compiled by the rules of `t`. -/
structure CompiledFrom (t : Zmk.Encoder) (board : Board) (layer : Layer) (compiled : CompiledLayer) :
    Prop where
  name : compiled.name = layer.name
  bindings : ∀ binding ∈ compiled.keycodes, ∃ key place,
    layer.KeyOn board key ∧ Zmk.value t place key = .ok binding

theorem Vocabulary.mem_noteMorph {key : String} {morph : ShiftMorph} :
    morph ∈ v.noteMorph key morphs ↔ morph ∈ morphs ∨ v.shiftMorph? key = some morph := by
  unfold noteMorph
  split
  · rename_i asked h
    rw [mem_insertOnce, or_comm, h, Option.some.injEq, eq_comm]
  · rename_i hn
    simp [hn]

theorem Compile.encodeKeys_source {encode : Nat → String → Result Document} {index : Nat}
    {after : List ShiftMorph} {keys : List String} {codes : List Document}
    (h : encodeKeys v encode index morphs keys = (.ok codes, after)) :
    (∀ code ∈ codes, ∃ key ∈ keys, ∃ i, encode i key = .ok code) ∧ ∀ morph, morph ∈ after ↔
        morph ∈ morphs ∨ ∃ key ∈ keys, v.shiftMorph? key = some morph := by
  induction keys generalizing index morphs codes with
  | nil =>
    obtain ⟨hs, rfl⟩ := Prod.mk.inj h
    cases hs
    exact ⟨fun code hn => (List.not_mem_nil hn).elim, by simp⟩
  | cons first rest ih =>
    rw [encodeKeys] at h
    cases hc : encode index first with
    | error fault =>
      rw [hc] at h
      cases (Prod.mk.inj h).1
    | ok code =>
      rw [hc] at h
      cases hl : encodeKeys v encode (index + 1) (v.noteMorph first morphs) rest with
      | mk result final =>
        simp only [hl, Prod.mk.injEq, map_eq_ok] at h
        obtain ⟨⟨others, rfl, rfl⟩, rfl⟩ := h
        obtain ⟨hma, ha⟩ := ih hl
        refine ⟨fun c hm => ?_, fun morph => ?_⟩
        · rcases List.mem_cons.mp hm with rfl | hm
          · exact ⟨first, List.mem_cons_self, index, hc⟩
          · obtain ⟨key, hr, i, hmd⟩ := hma c hm
            exact ⟨key, List.mem_cons_of_mem _ hr, i, hmd⟩
        · rw [ha, Vocabulary.mem_noteMorph, or_assoc]
          simp

theorem Compiler.compile_source {c after : Compiler} (ho : board.firmware.isQmk = false)
    (h : c.compile layer board = (.ok compiled, after)) :
    after.zmk = c.zmk ∧ CompiledFrom c.zmk board layer compiled ∧
      ∀ morph, morph ∈ after.zmkMorphs ↔ morph ∈ c.zmkMorphs ∨
        ∃ key, layer.KeyOn board key ∧ c.zmk.vocabulary.shiftMorph? key = some morph := by
  rw [compile, if_neg (by simp [ho]), compileZmk] at h
  cases hk : Compile.keys layer board with
  | error fault =>
    rw [hk] at h
    cases (Prod.mk.inj h).1
  | ok keys =>
    cases hc : keys.forM (Zmk.checkBinding c.zmk layer.title) with
    | error fault =>
      simp only [hk, hc] at h
      cases (Prod.mk.inj h).1
    | ok _ =>
      simp only [hk, hc] at h
      obtain ⟨hr, rfl⟩ := Prod.mk.inj h
      obtain ⟨codes, hcd, rfl⟩ := map_eq_ok.mp hr
      obtain ⟨hmd, ha⟩ := Compile.encodeKeys_source (Prod.ext hcd rfl)
      refine ⟨rfl, ⟨rfl, fun binding hmm => ?_⟩, fun morph => ?_⟩
      · obtain ⟨key, hky, i, hm⟩ := hmd binding hmm
        exact ⟨key, _, ⟨keys, hk, hky⟩, hm⟩
      · rw [ha]
        simp [Layer.KeyOn, hk]

namespace Generate

variable {after session : Session}

theorem Run.compiler_sayIf {condition : Bool} {text : String} {u : Unit}
    (h : (Run.sayIf condition text).run.run session = (.ok u, after)) : after.compiler = session.compiler := by
  unfold sayIf at h
  split at h
  · obtain ⟨-, rfl⟩ := Prod.mk.inj h
    rfl
  · obtain ⟨-, rfl⟩ := run_pure_eq_ok.mp h
    rfl

theorem Run.run_compile (layer : Layer) (board : Board) (session : Session) :
    (Run.compile layer board).run.run session = ((session.compiler.compile layer board).1,
      { session with compiler := (session.compiler.compile layer board).2 }) :=
  rfl

theorem Run.compile_source (ho : board.firmware.isQmk = false)
    (h : (Run.compile layer board).run.run session = (.ok compiled, after)) :
    after.compiler.zmk = session.compiler.zmk ∧ CompiledFrom session.compiler.zmk board layer compiled ∧
      ∀ morph, morph ∈ after.compiler.zmkMorphs ↔ morph ∈ session.compiler.zmkMorphs ∨
        ∃ key, layer.KeyOn board key ∧ session.compiler.zmk.vocabulary.shiftMorph? key = some morph := by
  rw [Run.run_compile] at h
  obtain ⟨hc, rfl⟩ := Prod.mk.inj h
  exact Compiler.compile_source ho (Prod.ext hc rfl)

theorem compileLayers_source {verbose : Bool} {layers : List Layer} {compiled : List CompiledLayer}
    (other : board.firmware.isQmk = false)
    (h : (compileLayers verbose board layers).run.run session = (.ok compiled, after)) :
    ∃ kept, kept.Sublist layers ∧ List.Forall₂ (CompiledFrom session.compiler.zmk board) kept compiled ∧
      ∀ morph, morph ∈ after.compiler.zmkMorphs ↔ morph ∈ session.compiler.zmkMorphs ∨
        ∃ layer ∈ kept, ∃ key, layer.KeyOn board key ∧
          session.compiler.zmk.vocabulary.shiftMorph? key = some morph := by
  induction layers generalizing session compiled with
  | nil =>
    obtain ⟨rfl, rfl⟩ := run_pure_eq_ok.mp h
    exact ⟨[], .slnil, .nil, by simp⟩
  | cons layer rest ih =>
    rw [compileLayers] at h
    obtain ⟨included, _, hi, h⟩ := run_bind_eq_ok.mp h
    obtain ⟨-, rfl⟩ := run_liftM_eq_ok.mp hi
    split at h
    · obtain ⟨_, s, hs, h⟩ := run_bind_eq_ok.mp h
      obtain ⟨first, s', hf, h⟩ := run_bind_eq_ok.mp h
      obtain ⟨others, s'', ho, h⟩ := run_bind_eq_ok.mp h
      obtain ⟨rfl, rfl⟩ := run_pure_eq_ok.mp h
      obtain ⟨hsr, hmd, ha⟩ := Run.compile_source other hf
      obtain ⟨kept, hsb, all, hm⟩ := ih ho
      rw [hsr] at all hm
      rw [Run.compiler_sayIf hs] at hmd ha all hm
      refine ⟨layer :: kept, hsb.cons_cons layer, .cons hmd all, fun morph => ?_⟩
      rw [hm, ha, or_assoc]
      simp
    · obtain ⟨_, s, hs, h⟩ := run_bind_eq_ok.mp h
      obtain ⟨kept, hsb, all, hm⟩ := ih h
      rw [Run.compiler_sayIf hs] at all hm
      exact ⟨kept, hsb.cons layer, all, hm⟩

end Generate

end Keymap
