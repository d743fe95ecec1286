import SourceNavigator.Cpp.Ifstack

/-!
Backtracking in the token window (`token`, `step`, `Save` and `Restore` in
`cpp/cpplib/crossrefP.h`).

`token`, `identlen` and the other macros read the slot of a position behind or in
front of the current one, after `f_read` has filled the window up to there;
`Save` and `Restore` go back to a position. `window_transparent_iff` says for
which sequences of operations the window of 65536 slots reads as an array of all
tokens would, whatever the tokens are: for those that do not read a position more
than 65536 tokens behind the last one that was read.
-/

namespace SourceNavigator.Cpp

/-- What the parser does: `slot` for the macros `token`, `identlen`, `f_lineno` and `f_charno` and for
`ident`, each of which reads a field of one slot; `Restore` with the number of positions that were
saved after the one it goes back to. -/
inductive TokenOp
  | slot (i : Int)
  | step (i : Int)
  | Save
  | Restore (k : Nat)

/-- The position and the saved positions. -/
structure Position where
  iva : Int := 0
  saved : List Int := []

def Position.move (p : Position) : TokenOp → Position
  | .slot _ => p
  | .step i => { p with iva := p.iva + i }
  | .Save => { p with saved := p.iva :: p.saved }
  | .Restore k => { p with iva := (p.saved[k]?).getD p.iva }

/-! ### The window and the array -/

/-- The reader and the input that is left. -/
structure Window where
  position : Position := {}
  reader : Reader := Reader.init
  rest : List Read

/-- A slot is read after `f_read`; the position is not in front of the first token. -/
def perform (s : Window) : TokenOp → Except Fault (Window × Option ZZSTYPE)
  | .slot i => do
      let place := (s.position.iva + i).toNat
      let (reader, rest) ← f_read 0 s.rest { s.reader with iva := place }
      return ({ s with reader, rest }, some (reader.v (place % ZZSIZE)))
  | op => return ({ s with position := s.position.move op }, none)

/-- The slots that are read. -/
def slots (s : Window) : List TokenOp → Except Fault (List (Option ZZSTYPE))
  | [] => return []
  | op :: ops => do
      let (s, z) ← perform s op
      let zs ← slots s ops
      return z :: zs

/-- All tokens that were delivered, and the input that is left. -/
structure Tokens where
  position : Position := {}
  filter : Filter := Filter.init
  tokens : List ZZSTYPE := []
  rest : List Read

/-- Tokens are read until the one at `place` is there. -/
def readTokens (place : Nat) : List Read → Filter → List ZZSTYPE → Except Fault (Filter × List ZZSTYPE × List Read)
  | [], filter, tokens => if tokens.length ≤ place then .error .input else .ok (filter, tokens, [])
  | r :: rs, filter, tokens =>
    if tokens.length ≤ place then do
      let (filter, z) ← filter.readToken r
      readTokens place rs filter (tokens ++ z.toList)
    else .ok (filter, tokens, r :: rs)

def performTokens (s : Tokens) : TokenOp → Except Fault (Tokens × Option ZZSTYPE)
  | .slot i => do
      let place := (s.position.iva + i).toNat
      let (filter, tokens, rest) ← readTokens place s.rest s.filter s.tokens
      return ({ s with filter, tokens, rest }, tokens[place]?)
  | op => return ({ s with position := s.position.move op }, none)

def tokens (s : Tokens) : List TokenOp → Except Fault (List (Option ZZSTYPE))
  | [] => return []
  | op :: ops => do
      let (s, z) ← performTokens s op
      let zs ← tokens s ops
      return z :: zs

/-! ### Where the operations read -/

/-- The number of tokens that have been read after an operation. -/
def TokenOp.reads (p : Position) (ivt : Nat) : TokenOp → Nat
  | .slot i => max ivt ((p.iva + i).toNat + 1)
  | _ => ivt

/-- No operation reads in front of the first token. -/
def ReadsTokens (p : Position) : List TokenOp → Prop
  | [] => True
  | op :: ops => (∀ i, op = .slot i → 0 ≤ p.iva + i) ∧ ReadsTokens (p.move op) ops

/-- No operation reads a position that is more than `ZZSIZE` tokens behind the last one. -/
def InWindow (p : Position) (ivt : Nat) : List TokenOp → Prop
  | [] => True
  | op :: ops =>
    (∀ i, op = .slot i → (ivt : Int) ≤ p.iva + i + ZZSIZE) ∧ InWindow (p.move op) (op.reads p ivt) ops

/-! ### In step -/

section InStep

variable {s : Window} {a : Tokens} {op : TokenOp} {ops : List TokenOp} {place i : Nat} {rs : List Read}

/-- The window holds the tokens of the array. -/
structure InStep (s : Window) (a : Tokens) : Prop where
  position : s.position = a.position
  filter : s.reader.filter = a.filter
  rest : s.rest = a.rest
  stored : Stored a.tokens s.reader

/-- The index of the last token that was stored in the slot of `i`. -/
def latest (length i : Nat) : Nat := i + ZZSIZE * ((length - 1 - i) / ZZSIZE)

theorem latest_spec {length i : Nat} (less : i < length) :
    latest length i < length ∧ length ≤ latest length i + ZZSIZE ∧ latest length i % ZZSIZE = i % ZZSIZE := by
  have below := Nat.mul_div_le (length - 1 - i) ZZSIZE
  have above := Nat.lt_mul_div_succ (length - 1 - i) (show 0 < ZZSIZE by decide)
  rw [Nat.mul_succ] at above
  unfold latest
  exact ⟨by omega, by omega, Nat.add_mul_mod_self_left ..⟩

theorem latest_eq_iff {length i : Nat} (less : i < length) : latest length i = i ↔ length ≤ i + ZZSIZE := by
  have := latest_spec less
  constructor
  · intro same
    omega
  · intro last
    unfold latest
    rw [Nat.div_eq_of_lt (by omega)]
    rfl

/-- What is in the slot of a token that was stored. -/
theorem Stored.latest {zs : List ZZSTYPE} {s : Reader} (stored : Stored zs s) (less : i < zs.length) :
    zs[latest zs.length i]? = some (s.v (i % ZZSIZE)) := by
  obtain ⟨below, last, same⟩ := latest_spec less
  have there := List.getElem?_eq_getElem below
  rw [there, ← stored.2 _ _ there last, same]

/-- `f_read` stores what the array takes. -/
def Follows (place : Nat) (zs : List ZZSTYPE) (run : Except Fault (Reader × List Read)) :
    Except Fault (Filter × List ZZSTYPE × List Read) → Prop
  | .error fault => run = .error fault
  | .ok (filter, zs', rest) => ∃ reader, run = .ok (reader, rest) ∧ reader.filter = filter ∧ Stored zs' reader ∧
      zs'.length = max zs.length (place + 1)

theorem follows_readTokens {reader : Reader} {zs : List ZZSTYPE} (stored : Stored zs reader)
    (atPlace : reader.iva = place) :
    Follows place zs (f_read 0 rs reader) (readTokens place rs reader.filter zs) := by
  induction rs generalizing reader zs with
  | nil =>
    have ivt := stored.1
    unfold readTokens f_read
    by_cases short : zs.length ≤ place
    · rw [if_pos short, if_pos (by omega)]
      rfl
    · rw [if_neg short, if_neg (by omega)]
      exact ⟨reader, rfl, rfl, stored, by omega⟩
  | cons r rs ih =>
    have ivt := stored.1
    unfold readTokens f_read
    by_cases short : zs.length ≤ place
    · rw [if_pos short, if_pos (by omega)]
      cases read : reader.filter.readToken r with
      | error fault => exact rfl
      | ok result =>
        obtain ⟨filter, z⟩ := result
        have next := Stored.store (s := { reader with filter := filter }) stored z
        have here : (({ reader with filter := filter } : Reader).store z).iva = place := by
          cases z <;> exact atPlace
        have same : (({ reader with filter := filter } : Reader).store z).filter = filter := by
          cases z <;> rfl
        have follows := ih next here
        rw [same] at follows
        change Follows place zs (f_read 0 rs _) (readTokens place rs filter _)
        cases run : readTokens place rs filter (zs ++ z.toList) with
        | error fault =>
          rw [run] at follows
          exact follows
        | ok out =>
          rw [run] at follows
          obtain ⟨reader', taken, filter', stored', length⟩ := follows
          refine ⟨reader', taken, filter', stored', ?_⟩
          rw [length, List.length_append]
          cases z with
          | none => rfl
          | some z =>
            rw [Option.toList_some, List.length_singleton]
            omega
    · rw [if_neg short, if_neg (by omega)]
      exact ⟨reader, rfl, rfl, stored, by omega⟩

/-- The two go on in step, and at a position in the window they read the same. -/
theorem InStep.perform (inStep : InStep s a) (op : TokenOp) :
    match performTokens a op with
    | .error fault => perform s op = .error fault
    | .ok (a', z') => ∃ s' z, perform s op = .ok (s', z) ∧ InStep s' a' ∧
        a'.position = a.position.move op ∧ a'.tokens.length = op.reads a.position a.tokens.length ∧
          (z = z' ↔ ∀ i, op = .slot i →
            a'.tokens[latest a'.tokens.length (a.position.iva + i).toNat]? = a'.tokens[(a.position.iva + i).toNat]?) := by
  cases op with
  | slot i =>
    have follows := @follows_readTokens (a.position.iva + i).toNat a.rest { s.reader with iva := (a.position.iva + i).toNat } _ inStep.stored rfl
    unfold Cpp.perform performTokens
    rw [inStep.position, inStep.rest]
    change Follows _ _ _ (readTokens _ _ s.reader.filter _) at follows
    rw [inStep.filter] at follows
    dsimp only
    cases run : readTokens (a.position.iva + i).toNat a.rest a.filter a.tokens with
    | error fault =>
      rw [run] at follows
      simp only [bind, Except.bind]
      rw [show f_read 0 a.rest _ = _ from follows]
    | ok out =>
      obtain ⟨filter, zs, rest⟩ := out
      rw [run] at follows
      obtain ⟨reader, taken, filter', stored, length⟩ := follows
      simp only [bind, Except.bind, taken]
      refine ⟨_, _, rfl, ⟨rfl, filter', rfl, stored⟩, rfl, length, ?_⟩
      have less : (a.position.iva + i).toNat < zs.length := by omega
      rw [← stored.latest less]
      constructor
      · rintro same _ ⟨⟩
        exact same
      · exact fun same => same i rfl
  | step i => exact ⟨_, _, rfl, ⟨congrArg (Position.move · (.step i)) inStep.position, inStep.filter, inStep.rest, inStep.stored⟩, rfl, rfl, by simp⟩
  | Save => exact ⟨_, _, rfl, ⟨congrArg (Position.move · .Save) inStep.position, inStep.filter, inStep.rest, inStep.stored⟩, rfl, rfl, by simp⟩
  | Restore k => exact ⟨_, _, rfl, ⟨congrArg (Position.move · (.Restore k)) inStep.position, inStep.filter, inStep.rest, inStep.stored⟩, rfl, rfl, by simp⟩

/-- At positions in the window all slots are read as the array has them. -/
theorem slots_eq (inStep : InStep s a) (inWindow : InWindow a.position a.tokens.length ops) :
    slots s ops = tokens a ops := by
  induction ops generalizing s a with
  | nil => rfl
  | cons op ops ih =>
    obtain ⟨here, later⟩ := inWindow
    have next := inStep.perform op
    unfold slots tokens
    cases run : performTokens a op with
    | error fault =>
      rw [run] at next
      rw [next]
      rfl
    | ok out =>
      obtain ⟨a', z'⟩ := out
      rw [run] at next
      obtain ⟨s', z, run', inStep', position, length, same⟩ := next
      have equal : z = z' := by
        apply same.mpr
        rintro i rfl
        have window := here i rfl
        have size : ZZSIZE = 65536 := rfl
        have ivt : a'.tokens.length = max a.tokens.length ((a.position.iva + i).toNat + 1) := length
        rw [(latest_eq_iff (by omega)).mpr (by omega)]
      rw [← position, ← length] at later
      simp only [run', bind, Except.bind, ih inStep' later, equal]

/-! ### Tokens that are all different -/

/-- An identifier of its own line. -/
def numbered (k : Nat) : Read := { token := { lex := SN_IDENTIFIER, lineno_beg := k }, niveau := 0 }

/-- The array behind the first `k` of `n` such tokens. -/
structure Numbered (n k : Nat) (a : Tokens) : Prop where
  filter : a.filter = Filter.init
  tokens : a.tokens = (List.range k).map fun j => (numbered j).token.toZZ
  rest : a.rest = (List.range' k (n - k)).map numbered
  less : k ≤ n

theorem readToken_numbered (k : Nat) :
    Filter.init.readToken (numbered k) = .ok (Filter.init, some (numbered k).token.toZZ) := rfl

theorem readTokens_numbered {k m : Nat} (less : place < k + m) :
    readTokens place ((List.range' k m).map numbered) Filter.init ((List.range k).map fun j => (numbered j).token.toZZ) =
      .ok (Filter.init, (List.range (max k (place + 1))).map fun j => (numbered j).token.toZZ,
        (List.range' (max k (place + 1)) (k + m - max k (place + 1))).map numbered) := by
  induction m generalizing k with
  | zero =>
    rw [show max k (place + 1) = k by omega]
    have there : ¬ ((List.range k).map fun j => (numbered j).token.toZZ).length ≤ place := by
      rw [List.length_map, List.length_range]
      omega
    rw [List.range'_zero, List.map_nil, readTokens, if_neg there, Nat.add_zero, Nat.sub_self]
    rfl
  | succ m ih =>
    rw [List.range'_succ, List.map_cons]
    unfold readTokens
    by_cases short : k ≤ place
    · rw [if_pos (by simpa using short), readToken_numbered]
      have next := ih (k := k + 1) (by omega)
      rw [List.range_succ, List.map_append] at next
      simp only [bind, Except.bind, Option.toList_some]
      rw [show max (k + 1) (place + 1) = max k (place + 1) by omega,
        show k + 1 + m = k + (m + 1) by omega] at next
      exact next
    · rw [if_neg (by simpa using short), show max k (place + 1) = k by omega, Nat.add_sub_cancel_left,
        List.range'_succ, List.map_cons]

/-- An operation on them. -/
theorem Numbered.performTokens {n k : Nat} (isNumbered : Numbered n k a)
    (enough : ∀ i, op = .slot i → (a.position.iva + i).toNat < n) :
    ∃ a' z k', performTokens a op = .ok (a', z) ∧ Numbered n k' a' := by
  obtain ⟨filter, tokens, rest, less⟩ := isNumbered
  cases op with
  | slot i =>
    have inside := enough i rfl
    have run := @readTokens_numbered (a.position.iva + i).toNat k (n - k) (by omega)
    unfold Cpp.performTokens
    rw [filter, tokens, rest]
    simp only [bind, Except.bind, run]
    refine ⟨_, _, max k ((a.position.iva + i).toNat + 1), rfl, rfl, rfl, ?_, by omega⟩
    rw [show k + (n - k) = n by omega]
  | step i => exact ⟨_, _, k, rfl, filter, tokens, rest, less⟩
  | Save => exact ⟨_, _, k, rfl, filter, tokens, rest, less⟩
  | Restore j => exact ⟨_, _, k, rfl, filter, tokens, rest, less⟩

/-- How many tokens the operations need. -/
def needed (p : Position) : List TokenOp → Nat
  | [] => 0
  | op :: ops => max (op.reads p 0) (needed (p.move op) ops)

/-- When so many different tokens are read as from the array, no position was out of the window. -/
theorem inWindow_of_slots_eq {n k : Nat} (inStep : InStep s a) (isNumbered : Numbered n k a)
    (valid : ReadsTokens a.position ops) (enough : needed a.position ops ≤ n) :
    ∃ zs, tokens a ops = .ok zs ∧ (slots s ops = .ok zs → InWindow a.position a.tokens.length ops) := by
  induction ops generalizing s a k with
  | nil => exact ⟨[], rfl, fun _ => trivial⟩
  | cons op ops ih =>
    obtain ⟨nonneg, valid⟩ := valid
    rw [needed, Nat.max_le] at enough
    have inside : ∀ i, op = .slot i → (a.position.iva + i).toNat < n := by
      rintro i rfl
      have reads : TokenOp.reads a.position 0 (.slot i) = max 0 ((a.position.iva + i).toNat + 1) := rfl
      omega
    obtain ⟨a', z', k', run, isNumbered'⟩ := isNumbered.performTokens inside
    have next := inStep.perform op
    rw [run] at next
    obtain ⟨s', z, run', inStep', position, length, same⟩ := next
    rw [← position] at valid enough
    obtain ⟨zs, all, inWindow⟩ := ih inStep' isNumbered' valid enough.2
    refine ⟨z' :: zs, by simp only [tokens, run, bind, Except.bind, all]; rfl, fun equal => ?_⟩
    simp only [slots, run', bind, Except.bind] at equal
    cases rest : slots s' ops with
    | error fault =>
      rw [rest] at equal
      cases equal
    | ok others =>
      rw [rest] at equal
      obtain ⟨rfl, rfl⟩ := List.cons.inj (Except.ok.inj equal)
      refine ⟨?_, ?_⟩
      · rintro i rfl
        have equal := same.mp rfl i rfl
        have ivt : a'.tokens.length = max a.tokens.length ((a.position.iva + i).toNat + 1) := length
        have less : (a.position.iva + i).toNat < a'.tokens.length := by omega
        have number : ∀ j, j < a'.tokens.length → a'.tokens[j]? = some (numbered j).token.toZZ := by
          intro j below
          rw [isNumbered'.tokens] at below ⊢
          rw [List.length_map, List.length_range] at below
          rw [List.getElem?_map, List.getElem?_range below]
          rfl
        rw [number _ less, number _ (latest_spec less).1] at equal
        have line : (latest a'.tokens.length (a.position.iva + i).toNat : Int) = (a.position.iva + i).toNat :=
          congrArg ZZSTYPE.yylineno (Option.some.inj equal)
        have window := (latest_eq_iff less).mp (by omega)
        have := nonneg i rfl
        omega
      · rw [← position, ← length]
        exact inWindow rest

theorem inStep_start (rs : List Read) : InStep { rest := rs } { rest := rs } := ⟨rfl, rfl, rfl, rfl, nofun⟩

theorem inWindow_of_forall (valid : ReadsTokens {} ops) (equal : ∀ rs, slots { rest := rs } ops = tokens { rest := rs } ops) :
    InWindow {} 0 ops := by
  have isNumbered : Numbered (needed {} ops) 0 { rest := (List.range' 0 (needed {} ops)).map numbered } :=
    ⟨rfl, rfl, rfl, Nat.zero_le _⟩
  obtain ⟨zs, all, inWindow⟩ := inWindow_of_slots_eq (inStep_start _) isNumbered valid (Nat.le_refl _)
  exact inWindow ((equal _).trans all)

end InStep

/-- The window reads as the array of all tokens, whatever the input is, exactly when no position is
read that is more than `ZZSIZE` tokens behind the last one. -/
theorem window_transparent_iff (ops : List TokenOp) (valid : ReadsTokens {} ops) :
    (∀ rs, slots { rest := rs } ops = tokens { rest := rs } ops) ↔ InWindow {} 0 ops :=
  ⟨inWindow_of_forall valid, fun inWindow rs => slots_eq (inStep_start rs) inWindow⟩

/-- A token is looked at, and after a step the position is restored. -/
theorem window_restores :
    slots { rest := [numbered 0, numbered 1] } [.slot 0, .Save, .step 1, .slot 0, .Restore 0, .slot 0] =
      tokens { rest := [numbered 0, numbered 1] }
        [.slot 0, .Save, .step 1, .slot 0, .Restore 0, .slot 0] :=
  (window_transparent_iff _ (by simp [ReadsTokens, Position.move])).mpr (by
    simp [InWindow, Position.move, TokenOp.reads, ZZSIZE]) [numbered 0, numbered 1]

/-! ### An element of an initializer -/

/-- What `f_StepTo` does at `n` tokens that it goes over, nested ones included, and behind them. -/
def f_StepTo (n : Nat) (ops : List TokenOp) : List TokenOp :=
  match n with
  | 0 => .slot 0 :: ops
  | n + 1 => .slot 0 :: .step 1 :: f_StepTo n ops

/-- What `f_Init` does at an element that is no expression, and `f_InitList` behind it: the tokens up
to the next comma are gone over, and again from the restored position. -/
def rejectedElement (n : Nat) : List TokenOp := .Save :: .slot 0 :: f_StepTo n [.Restore 0, .slot 0]

theorem readsTokens_f_StepTo {p : Position} {ops : List TokenOp} (nonneg : 0 ≤ p.iva) (n : Nat)
    (behind : ReadsTokens { p with iva := p.iva + n } ops) : ReadsTokens p (f_StepTo n ops) := by
  induction n generalizing p with
  | zero =>
    refine ⟨?_, ?_⟩
    · rintro _ ⟨⟩
      omega
    · change ReadsTokens p ops
      rw [show p = { p with iva := p.iva + (0 : Nat) } by simp]
      exact behind
  | succ n ih =>
    refine ⟨?_, ?_, ih ?_ ?_⟩
    · rintro _ ⟨⟩
      omega
    · nofun
    · change 0 ≤ p.iva + 1
      omega
    · change ReadsTokens { p with iva := p.iva + 1 + n } ops
      rw [show p.iva + 1 + n = p.iva + (n + 1 : Nat) by omega]
      exact behind

theorem inWindow_f_StepTo {p : Position} {ops : List TokenOp} (nonneg : 0 ≤ p.iva) {n ivt : Nat}
    (inWindow : InWindow p ivt (f_StepTo n ops)) :
    ∃ ivt' : Nat, p.iva + n < ivt' ∧ InWindow { p with iva := p.iva + n } ivt' ops := by
  induction n generalizing p ivt with
  | zero =>
    refine ⟨TokenOp.reads p ivt (.slot 0), ?_, ?_⟩
    · have reads : TokenOp.reads p ivt (.slot 0) = max ivt ((p.iva + 0).toNat + 1) := rfl
      omega
    · rw [show ({ p with iva := p.iva + (0 : Nat) } : Position) = p by simp]
      exact inWindow.2
  | succ n ih =>
    obtain ⟨ivt', less, inWindow⟩ := ih (p := p.move (.step 1)) (show 0 ≤ p.iva + 1 by omega) inWindow.2.2
    have place : p.iva + 1 + n = p.iva + (n + 1 : Nat) := by omega
    refine ⟨ivt', ?_, ?_⟩
    · rw [← place]
      exact less
    · rw [← place]
      exact inWindow

/-- The element `.x = { 0, 0, ... }` with 70000 tokens: behind it the slot of its first token holds
another one. -/
theorem element_overwritten : ReadsTokens {} (rejectedElement 70000) ∧
    ¬ ∀ rs, slots { rest := rs } (rejectedElement 70000) = tokens { rest := rs } (rejectedElement 70000) := by
  have valid : ReadsTokens {} (rejectedElement 70000) := by
    refine ⟨nofun, ?_, readsTokens_f_StepTo (Int.le_refl 0) 70000 ⟨nofun, ?_, trivial⟩⟩
    · rintro _ ⟨⟩
      decide
    · rintro _ ⟨⟩
      decide
  refine ⟨valid, fun equal => ?_⟩
  obtain ⟨-, -, inWindow⟩ := inWindow_of_forall valid equal
  obtain ⟨ivt, less, -, behind, -⟩ := inWindow_f_StepTo (Int.le_refl 0) inWindow
  have window : (ivt : Int) ≤ 0 + 0 + ZZSIZE := behind 0 rfl
  have after : (0 : Int) + (70000 : Nat) < ivt := less
  have size : ZZSIZE = 65536 := rfl
  omega

end SourceNavigator.Cpp
