import Mathlib.Logic.Function.Basic
import Mathlib.Logic.Relation

/-!
The marks of macros (`f_MacroProcess` in `cpp/cpplib/process.c`).

The macros of a round become a ring, which is marked at the end of the round. A call that
looks up a new macro contains another call. The loop that takes the marks back unlinks a
macro before it asks for the next one and ends behind the first (`reset_eq`): the others
stay marked until `f_MacroFreeAll` (`marks_stay`).
-/

namespace SourceNavigator.Cpp.MacroMarks

/-- Macros are numbers; `tilt` is `none` where there is no macro yet. -/
structure Macros where
  tilt : Nat → Option Bool
  MacroNext : Nat → Nat
  MacroPrev : Nat → Nat

/-- A call, with the macros that its round found unmarked. -/
structure Call where
  MacroTilt : Option Nat := none
  MacroUsed : Option Nat := none
  found : List Nat := []

/-- The innermost call comes first. -/
structure State where
  macros : Macros
  calls : List Call

/-- The new `*pMacroBeg1` and the links. -/
def f_MacroAppend (pMacroBeg1 : Option Nat) (MacroBeg2 : Nat) (m : Macros) : Nat × Macros :=
  match pMacroBeg1 with
  | none => (MacroBeg2, m)
  | some MacroBeg1 =>
    let End1 := m.MacroPrev MacroBeg1
    let End2 := m.MacroPrev MacroBeg2
    (MacroBeg1, { m with
      MacroPrev := Function.update (Function.update m.MacroPrev MacroBeg1 End2) MacroBeg2 End1
      MacroNext := Function.update (Function.update m.MacroNext End1 MacroBeg2) End2 MacroBeg1 })

/-- `WHILE_MACRO`: the next macro is read behind the body. -/
def whileMacro (body : Nat → Macros → Macros) (MacroEnd : Nat) :
    Nat → Nat → Macros → Option Macros
  | 0, _, _ => none
  | n + 1, Macro, m =>
    let m := body Macro m
    let Macro := m.MacroNext Macro
    if Macro = MacroEnd then some m else whileMacro body MacroEnd n Macro m

def mark (Macro : Nat) (m : Macros) : Macros :=
  { m with tilt := Function.update m.tilt Macro (some true) }

/-- As `f_MacroCreate` makes a macro and the last loop leaves it. -/
def reset (Macro : Nat) (m : Macros) : Macros where
  tilt := Function.update m.tilt Macro (some false)
  MacroNext := Function.update m.MacroNext Macro Macro
  MacroPrev := Function.update m.MacroPrev Macro Macro

/-- A round looks up some macros and uses some that it found. -/
inductive Step : State → State → Prop
  | create {m calls Macro} (new : m.tilt Macro = none) : Step ⟨m, calls⟩ ⟨reset Macro m, calls⟩
  | enter {m calls} : Step ⟨m, calls⟩ ⟨m, {} :: calls⟩
  | find {m c calls Macro} (free : m.tilt Macro = some false) :
    Step ⟨m, c :: calls⟩ ⟨m, { c with found := Macro :: c.found } :: calls⟩
  | use {m c calls Macro} (mem : Macro ∈ c.found) : Step ⟨m, c :: calls⟩
      ⟨(f_MacroAppend c.MacroUsed Macro m).2,
        { c with MacroUsed := (f_MacroAppend c.MacroUsed Macro m).1 } :: calls⟩
  | round {m m' n c calls Macro} (used : c.MacroUsed = some Macro)
      (marked : whileMacro mark Macro n Macro m = some m') : Step ⟨m, c :: calls⟩
      ⟨(f_MacroAppend c.MacroTilt Macro m').2,
        { MacroTilt := (f_MacroAppend c.MacroTilt Macro m').1 } :: calls⟩
  | leave {m m' n c calls} (unused : c.MacroUsed = none)
      (last : c.MacroTilt.elim (some m) (fun Macro => whileMacro reset Macro n Macro m) = some m') :
    Step ⟨m, c :: calls⟩ ⟨m', calls⟩

variable {m m' : Macros} {s t : State} {c : Call} {calls : List Call} {u : Option Nat}
  {x Macro MacroEnd n : Nat}

/-- No call takes the mark of `x` back. -/
def Call.Keeps (x : Nat) (c : Call) : Prop :=
  c.MacroTilt ≠ some x ∧ c.MacroUsed ≠ some x ∧ x ∉ c.found

def State.Keeps (x : Nat) (s : State) : Prop :=
  s.macros.tilt x = some true ∧ ∀ c ∈ s.calls, c.Keeps x

theorem keeps_cons : State.Keeps x ⟨m, c :: calls⟩ ↔ c.Keeps x ∧ State.Keeps x ⟨m, calls⟩ := by
  rw [State.Keeps, State.Keeps, List.forall_mem_cons]
  exact and_left_comm

theorem tilt_append (marked : m.tilt x = some true) :
    (f_MacroAppend u Macro m).2.tilt x = some true := by
  cases u <;> exact marked

theorem append_ne (other : u ≠ some x) (ne : Macro ≠ x) :
    ∀ m, some (f_MacroAppend u Macro m).1 ≠ some x := by
  cases u with
  | none => exact fun _ same => ne (Option.some.inj same)
  | some _ => exact fun _ => other

theorem tilt_while (run : whileMacro mark MacroEnd n Macro m = some m')
    (marked : m.tilt x = some true) : m'.tilt x = some true := by
  induction n generalizing Macro m with
  | zero => cases run
  | succ n ih =>
    have still : (mark Macro m).tilt x = some true := by
      by_cases same : x = Macro <;> simp [mark, same, marked]
    rw [whileMacro] at run
    split at run
    · exact Option.some.inj run ▸ still
    · exact ih run still

/-- The loop that takes the marks back comes to one macro. -/
theorem reset_eq (run : whileMacro reset Macro n Macro m = some m') : m' = reset Macro m := by
  cases n with
  | zero => cases run
  | succ n => simpa [whileMacro, reset, eq_comm] using run

theorem tilt_reset (ne : x ≠ Macro) : (reset Macro m).tilt x = m.tilt x :=
  Function.update_of_ne ne _ _

theorem State.Keeps.step (keeps : s.Keeps x) (step : Step s t) : t.Keeps x := by
  cases step with
  | @create _ _ Macro new =>
    have ne : x ≠ Macro := by
      rintro rfl
      cases keeps.1.symm.trans new
    exact ⟨(tilt_reset ne).trans keeps.1, keeps.2⟩
  | enter => exact keeps_cons.mpr ⟨⟨by simp, by simp, by simp⟩, keeps⟩
  | @find _ _ _ Macro free =>
    obtain ⟨⟨tilt, used, found⟩, keeps⟩ := keeps_cons.mp keeps
    have ne : x ≠ Macro := by
      rintro rfl
      cases keeps.1.symm.trans free
    exact keeps_cons.mpr ⟨⟨tilt, used, List.not_mem_cons_of_ne_of_not_mem ne found⟩, keeps⟩
  | use mem =>
    obtain ⟨⟨tilt, used, found⟩, marked, calls⟩ := keeps_cons.mp keeps
    have other := append_ne used fun same => found (same ▸ mem)
    exact keeps_cons.mpr ⟨⟨tilt, other _, found⟩, tilt_append marked, calls⟩
  | round here run =>
    obtain ⟨⟨tilt, used, _⟩, marked, calls⟩ := keeps_cons.mp keeps
    have other := append_ne tilt fun same => used (same ▸ here)
    have marked := tilt_while run marked
    exact keeps_cons.mpr ⟨⟨other _, by simp, by simp⟩, tilt_append marked, calls⟩
  | leave _ last =>
    obtain ⟨⟨tilt, _⟩, keeps⟩ := keeps_cons.mp keeps
    revert tilt last
    cases Call.MacroTilt _ with
    | none => exact fun last _ => Option.some.inj last ▸ keeps
    | some Macro =>
      intro last tilt
      have ne : x ≠ Macro := fun same => tilt (same ▸ rfl)
      exact reset_eq last ▸ ⟨(tilt_reset ne).trans keeps.1, keeps.2⟩

/-- A macro that is marked between two outermost calls stays marked. -/
theorem marks_stay (run : Relation.ReflTransGen Step ⟨m, []⟩ s) (marked : m.tilt x = some true) :
    s.macros.tilt x = some true := by
  suffices keeps : s.Keeps x from keeps.1
  induction run with
  | refl => exact ⟨marked, by simp⟩
  | tail _ step ih => exact ih.step step

/-- Macros without a mark. -/
def free : Macros := ⟨fun _ => some false, id, id⟩

/-- What a call leaves that uses two in one round. -/
def left : Macros := reset 0 (mark 1 (mark 0 (f_MacroAppend (some 0) 1 free).2))

theorem marks_stay_second :
    Relation.ReflTransGen Step ⟨free, []⟩ ⟨left, []⟩ ∧ left.tilt 1 = some true := by
  have found : Relation.ReflTransGen Step ⟨free, []⟩ ⟨free, [{ found := [1, 0] }]⟩ :=
    ((Relation.ReflTransGen.single .enter).tail (@Step.find _ _ _ 0 rfl)).tail
      (@Step.find _ _ _ 1 rfl)
  have used := (found.tail (@Step.use _ _ _ 0 (by simp))).tail (@Step.use _ _ _ 1 (by simp))
  exact ⟨(used.tail (.round (n := 2) rfl rfl)).tail (.leave (n := 1) rfl rfl),
    marks_stay (.single .enter) rfl⟩

end SourceNavigator.Cpp.MacroMarks
