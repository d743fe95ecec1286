import SourceNavigator.Cpp.Token
import Mathlib.Data.List.Basic
import Mathlib.Logic.Function.Basic

/-!
The conditional compilation filter of the second pass
(`parsers/cpp/cpplib/cp_stack.c`: `f_read`, `SetStatus`, `HighLight`).

`f_read` takes tokens from the lexer, keeps a stack of conditional groups for
the directive tokens and stores the tokens that are not filtered out in the
token window. The stack is an array of 1000 entries indexed without a check, so
every access of the model goes through `entry` or `setEntry`, which fail with
`Fault.bounds` outside the array.

* `Matches` relates the array to the list of enclosing groups; `matches_step` is
  the step lemma, `matches_run` the run lemma.
* `f_read_filter` states which tokens are delivered, and when the array is
  indexed inside its bounds.
-/

namespace SourceNavigator.Cpp

/-- What can stop `f_read`: an index outside `sIfstack`, or no more input. -/
inductive Fault where
  | bounds
  | input
  deriving DecidableEq, Repr

/-- `struct sIfstack`. -/
structure Ifstack where
  status : Bool := false
  niveau : Int := 0
  status_max : Bool := false
  undef : Bool := false
  else_ : Bool := false
  deriving DecidableEq, Repr

/-- Number of entries of the array `sIfstack`. -/
abbrev ifstackSize : Nat := 1000

/-- The static variables of the filter: the group depth, the array of groups
and the start of the text to highlight. -/
structure Filter where
  depth : Int
  sIfstack : Nat → Ifstack
  highlight : Bool := false
  highlight_lineno_beg : Int := 0
  highlight_charno_beg : Int := 0

/-- A token together with the brace level the parser is at when it is read. -/
structure Read where
  token : Token
  niveau : Int
  deriving DecidableEq, Repr

/-- One slot of the token window (`ZZSTYPE`). -/
structure ZZSTYPE where
  yytoken : Nat
  yytoken_cpp : Nat
  yytext : List UInt8
  yylineno : Int
  yycharno : Int
  deriving DecidableEq, Repr

namespace Filter

/-- `sIfstack[i]`, checked. -/
def entry (s : Filter) (i : Int) : Except Fault Ifstack :=
  if 0 ≤ i ∧ i < ifstackSize then .ok (s.sIfstack i.toNat) else .error .bounds

/-- `sIfstack[i] = e`, checked. -/
def setEntry (s : Filter) (i : Int) (e : Ifstack) : Except Fault Filter :=
  if 0 ≤ i ∧ i < ifstackSize then
    .ok { s with sIfstack := Function.update s.sIfstack i.toNat e }
  else .error .bounds

/-- A group takes effect only inside an active group. -/
def SetStatus (s : Filter) (depth : Int) (value : Bool) : Except Fault Filter := do
  let outer ← s.entry (depth - 1)
  let e ← s.entry depth
  let status := if outer.status then value else false
  s.setEntry depth { e with status, status_max := if status then true else e.status_max }

def HighLightBeg (t : Token) (s : Filter) : Except Fault Filter := do
  let outer ← s.entry (s.depth - 1)
  if outer.status then
    let e ← s.entry s.depth
    if !e.status then
      return { s with highlight := true, highlight_lineno_beg := t.lineno_beg,
                      highlight_charno_beg := 0 }
    else
      return { s with highlight := false }
  else
    return s

/-- Only reads the outer status: its body is empty in the source. -/
def HighLightEnd (s : Filter) : Except Fault Filter := do
  let _ ← s.entry (s.depth - 1)
  return s

def HighLight (t : Token) (s : Filter) : Except Fault Filter := do
  let outer ← s.entry (s.depth - 1)
  if outer.status then
    let s ← s.HighLightEnd
    s.HighLightBeg t
  else
    return s

/-- `case SN_PP_IF` of `f_read`. -/
def pp_if (r : Read) (s : Filter) : Except Fault Filter := do
  let s := { s with depth := s.depth + 1 }
  let e ← s.entry s.depth
  let undef := decide (r.token.mode = .UNDEF)
  let s ← s.setEntry s.depth
    { e with niveau := r.niveau, status_max := false, undef, else_ := false }
  let s ← s.SetStatus s.depth (if undef then true else decide (r.token.mode ≠ .FALSE))
  s.HighLightBeg r.token

/-- `case SN_PP_ELSE` of `f_read`. -/
def pp_else (r : Read) (s : Filter) : Except Fault Filter := do
  let s ← if 0 < s.depth then do
      let e ← s.entry s.depth
      let s ← s.setEntry s.depth { e with else_ := true }
      if e.undef then
        s.SetStatus s.depth (decide (r.niveau = e.niveau))
      else
        s.SetStatus s.depth (!e.status_max)
    else pure s
  s.HighLight r.token

/-- `case SN_PP_ELIF` of `f_read`. -/
def pp_elif (r : Read) (s : Filter) : Except Fault Filter := do
  let s ← if 0 < s.depth then do
      let e ← s.entry s.depth
      let undef := if r.token.mode = .UNDEF then true else e.undef
      let s ← s.setEntry s.depth { e with else_ := true, undef }
      if undef then
        s.SetStatus s.depth (decide (r.niveau = e.niveau))
      else if e.status_max then
        s.SetStatus s.depth false
      else
        s.SetStatus s.depth (decide (r.token.mode ≠ .FALSE))
    else pure s
  s.HighLight r.token

/-- `case SN_PP_ENDIF` of `f_read`. -/
def pp_endif (s : Filter) : Except Fault Filter := do
  let s ← s.HighLightEnd
  let depth := s.depth - 1
  return { s with depth := if depth < 0 then 0 else depth }

end Filter

/-- The slot `process:` fills for a token. -/
def Token.toZZ (t : Token) : ZZSTYPE where
  yytoken := if t.lex = SN_IDENTIFIER ∧ 0 < t.keyword then
      if t.is_cpp then t.lex else t.keyword
    else t.lex
  yytoken_cpp := if t.lex = SN_IDENTIFIER ∧ 0 < t.keyword then t.keyword else t.lex
  yytext := t.text
  yylineno := t.lineno_beg
  yycharno := t.charno_beg

/-- The body of the loop of `f_read` for one token: the new static variables and
the slot that is stored, if any. `#define` and `#include` only look at the
status. -/
def Filter.readToken (s : Filter) (r : Read) : Except Fault (Filter × Option ZZSTYPE) :=
  match r.token.lex with
  | SN_PP_IF => do return (← s.pp_if r, none)
  | SN_PP_ELSE => do return (← s.pp_else r, none)
  | SN_PP_ELIF => do return (← s.pp_elif r, none)
  | SN_PP_ENDIF => do return (← s.pp_endif, none)
  | SN_PP_DEFINE => do
      let _ ← s.entry s.depth
      return (s, none)
  | SN_PP_INCLUDE => do
      let _ ← s.entry s.depth
      return (s, none)
  | 0 => return (s, some r.token.toZZ)
  | _ => do
      let e ← s.entry s.depth
      return (s, if e.status then some r.token.toZZ else none)

/-- `init_stack`: the static array is all zero except the status of entry 0. -/
def Filter.init : Filter where
  depth := 0
  sIfstack := Function.update (fun _ => {}) 0 { status := true }

/-- Read a list of tokens: the final static variables and what was stored. -/
def Filter.readAll : List Read → Filter → Except Fault (Filter × List ZZSTYPE)
  | [], s => .ok (s, [])
  | r :: rs, s => do
      let (s, z) ← s.readToken r
      let (s, zs) ← Filter.readAll rs s
      return (s, z.toList ++ zs)

/-! ### The token window -/

/-- Number of slots of the token window. -/
abbrev ZZSIZE : Nat := 0x10000

/-- The filter with the token window `v`, its fill index `ivt` and the parser's
position `iva`. -/
structure Reader where
  filter : Filter
  v : Nat → ZZSTYPE
  ivt : Nat
  iva : Nat

/-- Store a slot at `ivt & ZZMASK` and advance `ivt`. -/
def Reader.store (s : Reader) : Option ZZSTYPE → Reader
  | none => s
  | some z => { s with v := Function.update s.v (s.ivt % ZZSIZE) z, ivt := s.ivt + 1 }

/-- `f_read( i )`: read until the token at `iva + i` is in the window. The
result also gives the input that is left. -/
def f_read (i : Nat) : List Read → Reader → Except Fault (Reader × List Read)
  | [], s => if s.ivt ≤ s.iva + i then .error .input else .ok (s, [])
  | r :: rs, s =>
    if s.ivt ≤ s.iva + i then do
      let (f, z) ← s.filter.readToken r
      f_read i rs ({ s with filter := f }.store z)
    else .ok (s, r :: rs)

/-- The calls the parser makes, each at its own position `iva`. -/
def f_reads : List (Nat × Nat) → List Read → Reader → Except Fault (Reader × List Read)
  | [], rs, s => .ok (s, rs)
  | (iva, i) :: calls, rs, s => do
      let (s, rs) ← f_read i rs { s with iva }
      f_reads calls rs s

/-- The reader before the first token. -/
def Reader.init : Reader where
  filter := Filter.init
  v := fun _ => ⟨0, 0, [], 0, 0⟩
  ivt := 0
  iva := 0

/-! ### The enclosing groups of a position -/

/-- A conditional group as far as it has been read: the brace level at its
`#if`, the conditions of the branches that are over and the condition of the
branch being read. An `#else` branch has no condition. -/
structure Group where
  niveau : Int
  earlier : List (Option Mode)
  own : Option Mode
  deriving DecidableEq, Repr

/-- All conditions up to and including the branch being read. -/
def Group.conditions (g : Group) : List (Option Mode) := g.earlier ++ [g.own]

/-- The branch being read is possibly active: its condition is not false and no
earlier branch was certainly taken. -/
def Group.possiblyActive (g : Group) : Bool :=
  decide (g.own ≠ some .FALSE) && decide (some Mode.TRUE ∉ g.earlier)

/-- Some condition up to and including the current branch is undetermined. -/
def Group.undetermined (g : Group) : Bool := decide (some Mode.UNDEF ∈ g.conditions)

/-- From the first undetermined condition on every branch is read. -/
def Group.admitted (g : Group) : Bool := g.undetermined || g.possiblyActive

/-- The group at the start of its next branch. -/
def Group.next (g : Group) (own : Option Mode) : Group :=
  { g with earlier := g.conditions, own }

/-- The enclosing groups after one more token, innermost first. -/
def enclose (gs : List Group) (r : Read) : List Group :=
  match r.token.lex with
  | SN_PP_IF => ⟨r.niveau, [], some r.token.mode⟩ :: gs
  | SN_PP_ELSE => match gs with
    | [] => []
    | g :: gs => g.next none :: gs
  | SN_PP_ELIF => match gs with
    | [] => []
    | g :: gs => g.next (some r.token.mode) :: gs
  | SN_PP_ENDIF => gs.tail
  | _ => gs

/-- The enclosing groups at the end of a stream. -/
def enclosing (rs : List Read) : List Group := rs.foldl enclose []

/-- A token is in place among its enclosing groups: no `#elif`, `#else` or
`#endif` is stray and the nesting stays inside the array. -/
def InPlace (gs : List Group) (r : Read) : Prop :=
  (r.token.lex ∈ [SN_PP_ELSE, SN_PP_ELIF, SN_PP_ENDIF] → gs ≠ []) ∧
    (enclose gs r).length < ifstackSize

/-- A token is well formed among its enclosing groups: it is in place, no branch
follows an `#else`, and the directives of a group stand at the brace level of
its `#if`. -/
def WellPlaced (gs : List Group) (r : Read) : Prop :=
  InPlace gs r ∧ (r.token.lex ∈ [SN_PP_ELSE, SN_PP_ELIF] →
    ∀ g ∈ gs.head?, g.own ≠ none ∧ r.niveau = g.niveau)

instance (gs : List Group) (r : Read) : Decidable (InPlace gs r) :=
  inferInstanceAs (Decidable ((_ → _) ∧ _))

instance (gs : List Group) (r : Read) : Decidable (WellPlaced gs r) :=
  inferInstanceAs (Decidable (_ ∧ (_ → _)))

/-- Neither a directive nor the end-of-file token. -/
def Ordinary (r : Read) : Prop :=
  r.token.lex ∉ [SN_PP_IF, SN_PP_ELSE, SN_PP_ELIF, SN_PP_ENDIF, SN_PP_DEFINE, SN_PP_INCLUDE, 0]

instance (r : Read) : Decidable (Ordinary r) := inferInstanceAs (Decidable (_ ∉ _))

/-- A token that is to be delivered inside the groups `gs`: the end of the file,
or an ordinary token all of whose enclosing groups are admitted. -/
def Passes (gs : List Group) (r : Read) : Prop :=
  r.token.lex = 0 ∨ Ordinary r ∧ ∀ g ∈ gs, g.admitted = true

instance (gs : List Group) (r : Read) : Decidable (Passes gs r) :=
  inferInstanceAs (Decidable (_ ∨ _ ∧ _))

/-- What a stream that starts inside the groups `gs` is to leave in the window. -/
def delivered : List Group → List Read → List ZZSTYPE
  | _, [] => []
  | gs, r :: rs =>
    (if Passes gs r then [r.token.toZZ] else []) ++ delivered (enclose gs r) rs

/-- Every token of the stream satisfies `P` among the groups that enclose it. -/
def Throughout (P : List Group → Read → Prop) : List Group → List Read → Prop
  | _, [] => True
  | gs, r :: rs => P gs r ∧ Throughout P (enclose gs r) rs

/-! ### Small lemmas on the array -/

namespace Filter

variable {s : Filter} {n : Nat} {e : Ifstack}

theorem entry_ok (h : n < ifstackSize) : s.entry n = .ok (s.sIfstack n) := by
  have inside : 0 ≤ (n : Int) ∧ (n : Int) < ifstackSize := ⟨by omega, by exact_mod_cast h⟩
  rw [entry, if_pos inside, Int.toNat_natCast]

theorem setEntry_ok (h : n < ifstackSize) :
    s.setEntry n e = .ok { s with sIfstack := Function.update s.sIfstack n e } := by
  have inside : 0 ≤ (n : Int) ∧ (n : Int) < ifstackSize := ⟨by omega, by exact_mod_cast h⟩
  rw [setEntry, if_pos inside, Int.toNat_natCast]

/-- What `SetStatus` leaves in the entry at `n + 1`. -/
def withStatus (mem : Nat → Ifstack) (n : Nat) (value : Bool) : Nat → Ifstack :=
  Function.update mem (n + 1)
    { mem (n + 1) with
      status := (mem n).status && value
      status_max := ((mem n).status && value) || (mem (n + 1)).status_max }

theorem SetStatus_ok {value : Bool} (h : n + 1 < ifstackSize) :
    s.SetStatus ((n : Int) + 1) value =
      .ok { s with sIfstack := withStatus s.sIfstack n value } := by
  have inner : s.entry ((n : Int) + 1) = .ok (s.sIfstack (n + 1)) := by
    exact_mod_cast entry_ok (s := s) h
  have outer : s.entry ((n : Int) + 1 - 1) = .ok (s.sIfstack n) := by
    rw [Int.add_sub_cancel]
    exact entry_ok (by omega)
  have set : ∀ e, s.setEntry ((n : Int) + 1) e =
      .ok { s with sIfstack := Function.update s.sIfstack (n + 1) e } := by
    intro e
    exact_mod_cast setEntry_ok (s := s) (e := e) h
  simp only [SetStatus, outer, inner, set, withStatus, bind, Except.bind]
  cases (s.sIfstack n).status <;> cases value <;> rfl

/-- The highlighting functions change neither the depth nor the array. -/
theorem HighLightBeg_ok {t : Token} (hd : s.depth = (n : Int) + 1) (h : n + 1 < ifstackSize) :
    ∃ s', s.HighLightBeg t = .ok s' ∧ s'.depth = s.depth ∧ s'.sIfstack = s.sIfstack := by
  have inner : s.entry s.depth = .ok (s.sIfstack (n + 1)) := by
    rw [hd]
    exact_mod_cast entry_ok (s := s) h
  have outer : s.entry (s.depth - 1) = .ok (s.sIfstack n) := by
    rw [hd, Int.add_sub_cancel]
    exact entry_ok (by omega)
  cases ho : (s.sIfstack n).status with
  | false => exact ⟨s, by simp [HighLightBeg, outer, ho, bind, Except.bind, pure, Except.pure], rfl, rfl⟩
  | true =>
    cases hi : (s.sIfstack (n + 1)).status with
    | false =>
      refine ⟨{ s with highlight := true, highlight_lineno_beg := t.lineno_beg,
                       highlight_charno_beg := 0 }, ?_, rfl, rfl⟩
      simp [HighLightBeg, outer, inner, ho, hi, bind, Except.bind, pure, Except.pure]
    | true =>
      refine ⟨{ s with highlight := false }, ?_, rfl, rfl⟩
      simp [HighLightBeg, outer, inner, ho, hi, bind, Except.bind, pure, Except.pure]

theorem HighLightEnd_ok (hd : s.depth = (n : Int) + 1) (h : n + 1 < ifstackSize) :
    s.HighLightEnd = .ok s := by
  have outer : s.entry (s.depth - 1) = .ok (s.sIfstack n) := by
    rw [hd, Int.add_sub_cancel]
    exact entry_ok (by omega)
  simp [HighLightEnd, outer, bind, Except.bind, pure, Except.pure]

theorem HighLight_ok {t : Token} (hd : s.depth = (n : Int) + 1) (h : n + 1 < ifstackSize) :
    ∃ s', s.HighLight t = .ok s' ∧ s'.depth = s.depth ∧ s'.sIfstack = s.sIfstack := by
  have outer : s.entry (s.depth - 1) = .ok (s.sIfstack n) := by
    rw [hd, Int.add_sub_cancel]
    exact entry_ok (by omega)
  cases ho : (s.sIfstack n).status with
  | false => exact ⟨s, by simp [HighLight, outer, ho, bind, Except.bind, pure, Except.pure], rfl, rfl⟩
  | true =>
    obtain ⟨s', hs', rest⟩ := HighLightBeg_ok (t := t) hd h
    exact ⟨s', by simpa [HighLight, outer, ho, HighLightEnd_ok hd h, bind, Except.bind] using hs',
      rest⟩

/-! ### One lemma per directive: what it does to the array -/

/-- The value an `#else` asks for. -/
def elseValue (e : Ifstack) (niveau : Int) : Bool :=
  if e.undef then decide (niveau = e.niveau) else !e.status_max

/-- The value an `#elif` asks for, `e` being the entry with `undef` updated. -/
def elifValue (e : Ifstack) (r : Read) : Bool :=
  if e.undef then decide (r.niveau = e.niveau)
  else if e.status_max then false
  else decide (r.token.mode ≠ .FALSE)

variable {r : Read}

theorem setEntry_succ_ok (h : n + 1 < ifstackSize) :
    s.setEntry ((n : Int) + 1) e =
      .ok { s with sIfstack := Function.update s.sIfstack (n + 1) e } := by
  exact_mod_cast setEntry_ok (s := s) (e := e) h

theorem entry_succ_ok (h : n + 1 < ifstackSize) :
    s.entry ((n : Int) + 1) = .ok (s.sIfstack (n + 1)) := by
  exact_mod_cast entry_ok (s := s) h

theorem pp_if_ok (hd : s.depth = n) (h : n + 1 < ifstackSize) :
    ∃ s', s.pp_if r = .ok s' ∧ s'.depth = (n : Int) + 1 ∧
      s'.sIfstack = withStatus (Function.update s.sIfstack (n + 1)
        { s.sIfstack (n + 1) with
          niveau := r.niveau, status_max := false
          undef := decide (r.token.mode = .UNDEF), else_ := false }) n
        (decide (r.token.mode ≠ .FALSE)) := by
  have value : (if decide (r.token.mode = .UNDEF) then true else decide (r.token.mode ≠ .FALSE)) =
      decide (r.token.mode ≠ .FALSE) := by
    cases r.token.mode <;> rfl
  unfold pp_if
  simp only [hd, entry_succ_ok h, setEntry_succ_ok h, SetStatus_ok h, value, bind, Except.bind]
  obtain ⟨s', hs', hd', hmem⟩ := HighLightBeg_ok (t := r.token) (n := n)
    (s := { s with
      depth := (n : Int) + 1
      sIfstack := withStatus (Function.update s.sIfstack (n + 1)
        { s.sIfstack (n + 1) with
          niveau := r.niveau, status_max := false
          undef := decide (r.token.mode = .UNDEF), else_ := false }) n
        (decide (r.token.mode ≠ .FALSE)) }) rfl h
  exact ⟨s', hs', hd', hmem⟩

/-- A branch of an open group: the entry becomes `e`, then its status is set. -/
theorem branch_ok {b : Bool} (hd : s.depth = (n : Int) + 1) (h : n + 1 < ifstackSize) :
    ∃ s', HighLight r.token
        { s with sIfstack := withStatus (Function.update s.sIfstack (n + 1) e) n b } = .ok s' ∧
      s'.depth = (n : Int) + 1 ∧
      s'.sIfstack = withStatus (Function.update s.sIfstack (n + 1) e) n b := by
  obtain ⟨s', hs', hd', hmem⟩ := HighLight_ok (t := r.token) (n := n)
    (s := { s with sIfstack := withStatus (Function.update s.sIfstack (n + 1) e) n b }) hd h
  exact ⟨s', hs', hd'.trans hd, hmem⟩

theorem pp_else_ok (hd : s.depth = (n : Int) + 1) (h : n + 1 < ifstackSize) :
    ∃ s', s.pp_else r = .ok s' ∧ s'.depth = (n : Int) + 1 ∧
      s'.sIfstack = withStatus (Function.update s.sIfstack (n + 1)
        { s.sIfstack (n + 1) with else_ := true }) n
        (elseValue (s.sIfstack (n + 1)) r.niveau) := by
  have pos : 0 < (n : Int) + 1 := by omega
  obtain ⟨s', hs', rest⟩ := branch_ok (r := r) (e := { s.sIfstack (n + 1) with else_ := true })
    (b := elseValue (s.sIfstack (n + 1)) r.niveau) hd h
  refine ⟨s', ?_, rest⟩
  rw [← hs', pp_else]
  simp only [hd, pos, if_true, entry_succ_ok h, setEntry_succ_ok h, SetStatus_ok h, bind,
    Except.bind, elseValue]
  cases (s.sIfstack (n + 1)).undef <;> rfl

theorem pp_elif_ok (hd : s.depth = (n : Int) + 1) (h : n + 1 < ifstackSize)
    (he : e = { s.sIfstack (n + 1) with
      else_ := true
      undef := if r.token.mode = .UNDEF then true else (s.sIfstack (n + 1)).undef }) :
    ∃ s', s.pp_elif r = .ok s' ∧ s'.depth = (n : Int) + 1 ∧
      s'.sIfstack = withStatus (Function.update s.sIfstack (n + 1) e) n (elifValue e r) := by
  have pos : 0 < (n : Int) + 1 := by omega
  obtain ⟨s', hs', rest⟩ := branch_ok (r := r) (e := e) (b := elifValue e r) hd h
  refine ⟨s', ?_, rest⟩
  rw [← hs', pp_elif]
  subst he
  simp only [hd, pos, if_true, entry_succ_ok h, setEntry_succ_ok h, SetStatus_ok h, bind,
    Except.bind, elifValue]
  cases (if r.token.mode = .UNDEF then true else (s.sIfstack (n + 1)).undef) with
  | true => rfl
  | false => cases (s.sIfstack (n + 1)).status_max <;> rfl

theorem pp_endif_ok (hd : s.depth = (n : Int) + 1) (h : n + 1 < ifstackSize) :
    s.pp_endif = .ok { s with depth := n } := by
  have clamp : ¬ ((n : Int) < 0) := by omega
  simp only [pp_endif, HighLightEnd_ok hd h, bind, Except.bind, pure, Except.pure, hd,
    Int.add_sub_cancel, if_neg clamp]

/-! ### One lemma for the loop body -/

/-- The group depth after a token. -/
def nextDepth (n : Nat) (r : Read) : Nat :=
  match r.token.lex with
  | SN_PP_IF => n + 1
  | SN_PP_ENDIF => n - 1
  | _ => n

/-- The entry of an open group at an `#elif`, before its status is set. -/
def elifEntry (e : Ifstack) (r : Read) : Ifstack :=
  { e with else_ := true, undef := if r.token.mode = .UNDEF then true else e.undef }

/-- The array after a token read at depth `n`. -/
def nextArray (mem : Nat → Ifstack) (n : Nat) (r : Read) : Nat → Ifstack :=
  match r.token.lex with
  | SN_PP_IF =>
    withStatus (Function.update mem (n + 1)
      { mem (n + 1) with
        niveau := r.niveau, status_max := false
        undef := decide (r.token.mode = .UNDEF), else_ := false }) n
      (decide (r.token.mode ≠ .FALSE))
  | SN_PP_ELSE =>
    withStatus (Function.update mem n { mem n with else_ := true }) (n - 1)
      (elseValue (mem n) r.niveau)
  | SN_PP_ELIF =>
    withStatus (Function.update mem n (elifEntry (mem n) r)) (n - 1)
      (elifValue (elifEntry (mem n) r) r)
  | _ => mem

/-- What is stored for a token when the status of the current group is `active`. -/
def slot (active : Bool) (r : Read) : Option ZZSTYPE :=
  match r.token.lex with
  | SN_PP_IF | SN_PP_ELSE | SN_PP_ELIF | SN_PP_ENDIF | SN_PP_DEFINE | SN_PP_INCLUDE => none
  | 0 => some r.token.toZZ
  | _ => if active then some r.token.toZZ else none

/-- The directives that need an open group. -/
def Closing (r : Read) : Prop := r.token.lex ∈ [SN_PP_ELSE, SN_PP_ELIF, SN_PP_ENDIF]

/-- The cases of the switch of `f_read`. -/
theorem read_cases (r : Read) :
    r.token.lex = SN_PP_IF ∨ r.token.lex = SN_PP_ELSE ∨ r.token.lex = SN_PP_ELIF ∨
      r.token.lex = SN_PP_ENDIF ∨ r.token.lex = SN_PP_DEFINE ∨ r.token.lex = SN_PP_INCLUDE ∨
      r.token.lex = 0 ∨ Ordinary r := by
  by_cases h : Ordinary r
  · simp [h]
  · simp only [Ordinary, not_not, List.mem_cons, List.not_mem_nil, or_false] at h
    tauto

section Ordinary

variable (h : Ordinary r)

include h

theorem readToken_ordinary : s.readToken r = (do
    let e ← s.entry s.depth
    return (s, if e.status then some r.token.toZZ else none)) := by
  simp only [Ordinary, List.mem_cons, List.not_mem_nil, or_false, not_or] at h
  unfold readToken
  split <;> first | rfl | (exfalso; tauto)

theorem nextDepth_ordinary : nextDepth n r = n := by
  simp only [Ordinary, List.mem_cons, List.not_mem_nil, or_false, not_or] at h
  unfold nextDepth
  split <;> first | rfl | (exfalso; tauto)

theorem nextArray_ordinary (mem : Nat → Ifstack) : nextArray mem n r = mem := by
  simp only [Ordinary, List.mem_cons, List.not_mem_nil, or_false, not_or] at h
  unfold nextArray
  split <;> first | rfl | (exfalso; tauto)

theorem slot_ordinary (active : Bool) :
    slot active r = if active then some r.token.toZZ else none := by
  simp only [Ordinary, List.mem_cons, List.not_mem_nil, or_false, not_or] at h
  unfold slot
  split <;> first | rfl | (exfalso; tauto)

end Ordinary

/-- **The loop body.** At a depth inside the array, and with an open group where
the directive needs one, the body of `f_read` indexes inside the array and does
what `nextDepth`, `nextArray` and `slot` say. -/
theorem readToken_ok (hd : s.depth = n) (hn : n < ifstackSize) (group : Closing r → n ≠ 0)
    (size : nextDepth n r < ifstackSize) :
    ∃ s', s.readToken r = .ok (s', slot (s.sIfstack n).status r) ∧
      s'.depth = nextDepth n r ∧ s'.sIfstack = nextArray s.sIfstack n r := by
  have top : s.entry s.depth = .ok (s.sIfstack n) := by
    rw [hd]
    exact entry_ok hn
  -- the directives that need an open group run at depth `m + 1`
  have succ (h : Closing r) : ∃ m, n = m + 1 := Nat.exists_eq_succ_of_ne_zero (group h)
  rcases read_cases r with h | h | h | h | h | h | h | h
  · simp only [nextDepth, h] at size
    obtain ⟨s', hs', hd', hmem⟩ := pp_if_ok (r := r) hd size
    simp only [readToken, nextDepth, nextArray, slot, h]
    exact ⟨s', by simp [hs', bind, Except.bind, pure, Except.pure], by simpa using hd', hmem⟩
  · obtain ⟨m, rfl⟩ := succ (by simp [Closing, h])
    obtain ⟨s', hs', hd', hmem⟩ := pp_else_ok (r := r) (by exact_mod_cast hd) hn
    simp only [readToken, nextDepth, nextArray, slot, h]
    exact ⟨s', by simp [hs', bind, Except.bind, pure, Except.pure], by simpa using hd', hmem⟩
  · obtain ⟨m, rfl⟩ := succ (by simp [Closing, h])
    obtain ⟨s', hs', hd', hmem⟩ := pp_elif_ok (r := r) (e := elifEntry (s.sIfstack (m + 1)) r)
      (by exact_mod_cast hd) hn rfl
    simp only [readToken, nextDepth, nextArray, slot, h]
    exact ⟨s', by simp [hs', bind, Except.bind, pure, Except.pure], by simpa using hd', hmem⟩
  · obtain ⟨m, rfl⟩ := succ (by simp [Closing, h])
    simp only [readToken, nextDepth, nextArray, slot, h]
    refine ⟨{ s with depth := m }, ?_, by simp, rfl⟩
    simp [pp_endif_ok (by exact_mod_cast hd) hn, bind, Except.bind, pure, Except.pure]
  · simp only [readToken, nextDepth, nextArray, slot, h, top]
    exact ⟨s, rfl, hd, rfl⟩
  · simp only [readToken, nextDepth, nextArray, slot, h, top]
    exact ⟨s, rfl, hd, rfl⟩
  · simp only [readToken, nextDepth, nextArray, slot, h]
    exact ⟨s, rfl, hd, rfl⟩
  · rw [readToken_ordinary h, nextDepth_ordinary h, nextArray_ordinary h, slot_ordinary h, top]
    exact ⟨s, rfl, hd, rfl⟩

end Filter

/-! ### The array follows the enclosing groups -/

open SourceNavigator.Cpp.Filter

/-- The entry of a group agrees with the group, given the status around it. The
maximal status only matters while branches may follow in an active,
undetermined-free group. -/
structure Agrees (e : Ifstack) (g : Group) (outer : Bool) : Prop where
  niveau : e.niveau = g.niveau
  undef : e.undef = g.undetermined
  status : e.status = (outer && g.admitted)
  status_max : outer = true → g.undetermined = false → g.own ≠ none →
    e.status_max = decide (some Mode.TRUE ∈ g.conditions)

/-- The array agrees with the list of enclosing groups, innermost first. -/
def Stack (mem : Nat → Ifstack) : List Group → Prop
  | [] => (mem 0).status = true
  | g :: gs => Stack mem gs ∧ Agrees (mem (gs.length + 1)) g (gs.all Group.admitted)

/-- The static variables match the enclosing groups. -/
def Matches (s : Filter) (gs : List Group) : Prop :=
  s.depth = gs.length ∧ gs.length < ifstackSize ∧ Stack s.sIfstack gs

/-- Entries above the depth do not matter. -/
theorem Stack.congr {mem mem' : Nat → Ifstack} {gs : List Group}
    (same : ∀ k ≤ gs.length, mem' k = mem k) (h : Stack mem gs) : Stack mem' gs := by
  induction gs with
  | nil =>
    rw [Stack, same 0 (Nat.le_refl _)]
    exact h
  | cons g gs ih =>
    refine ⟨ih (fun k hk => same k (by simp; omega)) h.1, ?_⟩
    rw [same _ (by simp)]
    exact h.2

/-- The status of the innermost entry says whether all groups are admitted. -/
theorem Stack.status {mem : Nat → Ifstack} {gs : List Group} (h : Stack mem gs) :
    (mem gs.length).status = gs.all Group.admitted := by
  cases gs with
  | nil => exact h
  | cons g gs => simpa [Bool.and_comm] using h.2.status

theorem withStatus_of_le {mem : Nat → Ifstack} {n k : Nat} {value : Bool} (h : k ≤ n) :
    withStatus mem n value k = mem k :=
  Function.update_of_ne (by omega) _ _

theorem Group.conditions_next (g : Group) (own : Option Mode) :
    (g.next own).conditions = g.conditions ++ [own] := rfl

theorem enclose_ordinary {gs : List Group} {r : Read} (h : Ordinary r) : enclose gs r = gs := by
  simp only [Ordinary, List.mem_cons, List.not_mem_nil, or_false, not_or] at h
  unfold enclose
  split <;> first | rfl | (exfalso; tauto)

theorem length_enclose {gs : List Group} {r : Read} (group : Closing r → gs ≠ []) :
    (enclose gs r).length = nextDepth gs.length r := by
  have cons (h : Closing r) : ∃ g gs', gs = g :: gs' := List.exists_cons_of_ne_nil (group h)
  rcases read_cases r with h | h | h | h | h | h | h | h
  · simp [enclose, nextDepth, h]
  · obtain ⟨g, gs, rfl⟩ := cons (by simp [Closing, h])
    simp [enclose, nextDepth, h]
  · obtain ⟨g, gs, rfl⟩ := cons (by simp [Closing, h])
    simp [enclose, nextDepth, h]
  · simp [enclose, nextDepth, h]
  · simp [enclose, nextDepth, h]
  · simp [enclose, nextDepth, h]
  · simp [enclose, nextDepth, h]
  · rw [enclose_ordinary h, nextDepth_ordinary h]

/-- A branch is opened in the group at `gs.length + 1`: its entry is set to `e`
and asked for the status `value`. The stack below is not touched, and the entry
agrees with the group `g` when `e` and `value` do. -/
theorem Stack.branch {mem : Nat → Ifstack} {gs : List Group} {g : Group} {e : Ifstack}
    {value : Bool} (h : Stack mem gs) (niveau : e.niveau = g.niveau)
    (undef : e.undef = g.undetermined)
    (status : gs.all Group.admitted = true → value = g.admitted)
    (status_max : gs.all Group.admitted = true → g.undetermined = false → g.own ≠ none →
      (value || e.status_max) = decide (some Mode.TRUE ∈ g.conditions)) :
    Stack (withStatus (Function.update mem (gs.length + 1) e) gs.length value) (g :: gs) := by
  have outer : (Function.update mem (gs.length + 1) e gs.length).status =
      gs.all Group.admitted := by
    rw [Function.update_of_ne (by omega)]
    exact h.status
  refine ⟨h.congr fun k hk => ?_, ?_⟩
  · rw [withStatus_of_le hk, Function.update_of_ne (by omega)]
  · constructor
    · simpa [withStatus] using niveau
    · simpa [withStatus] using undef
    · simp only [withStatus, Function.update_self, outer]
      cases hall : gs.all Group.admitted with
      | false => rfl
      | true => simp [status hall]
    · intro hall hund hown
      simp only [withStatus, Function.update_self, outer, hall, Bool.true_and]
      exact status_max hall hund hown

/-- **The array of an `#if`.** -/
theorem Stack.pp_if {mem : Nat → Ifstack} {gs : List Group} {r : Read} (h : Stack mem gs)
    (hlex : r.token.lex = SN_PP_IF) :
    Stack (nextArray mem gs.length r) (enclose gs r) := by
  simp only [nextArray, enclose, hlex]
  apply h.branch
  · rfl
  · cases hm : r.token.mode <;> simp [Group.undetermined, Group.conditions]
  · intro _
    cases hm : r.token.mode <;>
      simp [Group.admitted, Group.undetermined, Group.possiblyActive, Group.conditions]
  · intro _ hund _
    cases hm : r.token.mode <;>
      simp_all [Group.undetermined, Group.conditions]

/-- **The array of an `#else`.** -/
theorem Stack.pp_else {mem : Nat → Ifstack} {gs : List Group} {g : Group} {r : Read}
    (h : Stack mem (g :: gs)) (hlex : r.token.lex = SN_PP_ELSE) (hown : g.own ≠ none)
    (hniveau : r.niveau = g.niveau) :
    Stack (nextArray mem (gs.length + 1) r) (enclose (g :: gs) r) := by
  obtain ⟨below, agrees⟩ := h
  simp only [nextArray, enclose, hlex, Nat.add_sub_cancel]
  apply below.branch
  · exact agrees.niveau
  · rw [agrees.undef]
    simp [Group.undetermined, Group.conditions_next]
  · intro hall
    simp only [elseValue, agrees.undef, agrees.niveau, hniveau]
    cases hund : g.undetermined with
    | true =>
      have : (g.next none).undetermined = true := by
        simpa [Group.undetermined, Group.conditions_next] using hund
      simp [Group.admitted, this]
    | false =>
      have : (g.next none).undetermined = false := by
        simpa [Group.undetermined, Group.conditions_next] using hund
      simp only [agrees.status_max hall hund hown, Group.admitted, this]
      by_cases htrue : some Mode.TRUE ∈ g.conditions <;>
        simp [Group.possiblyActive, Group.next, htrue]
  · intro _ _ hnone
    exact absurd rfl hnone

/-- **The array of an `#elif`.** -/
theorem Stack.pp_elif {mem : Nat → Ifstack} {gs : List Group} {g : Group} {r : Read}
    (h : Stack mem (g :: gs)) (hlex : r.token.lex = SN_PP_ELIF) (hown : g.own ≠ none)
    (hniveau : r.niveau = g.niveau) :
    Stack (nextArray mem (gs.length + 1) r) (enclose (g :: gs) r) := by
  obtain ⟨below, agrees⟩ := h
  have undef : (elifEntry (mem (gs.length + 1)) r).undef =
      (g.next (some r.token.mode)).undetermined := by
    simp only [elifEntry, agrees.undef, Group.undetermined, Group.conditions_next]
    cases r.token.mode <;> simp
  -- an undetermined-free group was so before, which gives its maximal status
  have before (hund : (g.next (some r.token.mode)).undetermined = false) :
      g.undetermined = false := by
    simp only [Group.undetermined, Group.conditions_next] at hund ⊢
    simp_all
  simp only [nextArray, enclose, hlex, Nat.add_sub_cancel]
  apply below.branch
  · exact agrees.niveau
  · exact undef
  · intro hall
    simp only [elifValue, undef]
    cases hund : (g.next (some r.token.mode)).undetermined with
    | true => simp [Group.admitted, hund, elifEntry, agrees.niveau, hniveau]
    | false =>
      simp only [elifEntry, agrees.status_max hall (before hund) hown, Group.admitted, hund]
      by_cases htrue : some Mode.TRUE ∈ g.conditions
      · simp [Group.possiblyActive, Group.next, htrue]
      · cases r.token.mode <;> simp [Group.possiblyActive, Group.next, htrue]
  · intro hall hund _
    have hmode : r.token.mode ≠ .UNDEF := by
      intro hm
      simp [Group.undetermined, Group.conditions_next, hm] at hund
    simp only [elifValue, undef, hund]
    simp only [elifEntry, agrees.status_max hall (before hund) hown, Group.conditions_next]
    by_cases htrue : some Mode.TRUE ∈ g.conditions
    · simp [htrue]
    · cases hm : r.token.mode <;> simp_all

/-- **Step lemma.** A well placed token keeps the static variables in step with
the enclosing groups, and is stored as the admitted groups say. -/
theorem matches_step {s : Filter} {gs : List Group} {r : Read} (h : Matches s gs)
    (place : WellPlaced gs r) :
    ∃ s', s.readToken r = .ok (s', slot (gs.all Group.admitted) r) ∧ Matches s' (enclose gs r) := by
  obtain ⟨hd, hn, stack⟩ := h
  obtain ⟨⟨group, size⟩, shape⟩ := place
  have length := length_enclose group
  obtain ⟨s', hs', hd', hmem⟩ := readToken_ok hd hn (r := r)
    (fun hc => by simpa using group hc) (by rw [← length]; exact size)
  refine ⟨s', by rw [hs', stack.status], ?_, size, ?_⟩
  · rw [hd', length]
  rw [hmem]
  have cons (hc : Closing r) : ∃ g gs', gs = g :: gs' := List.exists_cons_of_ne_nil (group hc)
  rcases read_cases r with hlex | hlex | hlex | hlex | hlex | hlex | hlex | hlex
  · exact stack.pp_if hlex
  · obtain ⟨g, gs, rfl⟩ := cons (by simp [Closing, hlex])
    obtain ⟨hown, hniveau⟩ := shape (by simp [hlex]) g (by simp)
    exact stack.pp_else hlex hown hniveau
  · obtain ⟨g, gs, rfl⟩ := cons (by simp [Closing, hlex])
    obtain ⟨hown, hniveau⟩ := shape (by simp [hlex]) g (by simp)
    exact stack.pp_elif hlex hown hniveau
  · obtain ⟨g, gs, rfl⟩ := cons (by simp [Closing, hlex])
    simpa [nextArray, enclose, hlex] using stack.1
  · simpa [nextArray, enclose, hlex] using stack
  · simpa [nextArray, enclose, hlex] using stack
  · simpa [nextArray, enclose, hlex] using stack
  · rw [nextArray_ordinary hlex, enclose_ordinary hlex]
    exact stack

/-! ### Whole streams -/

theorem Matches_init : Matches Filter.init [] := by
  refine ⟨rfl, by simp, ?_⟩
  simp [Stack, Filter.init]

instance Throughout.decidable (P : List Group → Read → Prop) [∀ gs r, Decidable (P gs r)] :
    ∀ gs rs, Decidable (Throughout P gs rs)
  | _, [] => isTrue trivial
  | gs, r :: rs => @instDecidableAnd _ _ _ (Throughout.decidable P (enclose gs r) rs)

theorem Throughout.append {P : List Group → Read → Prop} {gs : List Group} {before after : List Read}
    (h : Throughout P gs (before ++ after)) :
    Throughout P gs before ∧ Throughout P (before.foldl enclose gs) after := by
  induction before generalizing gs with
  | nil => exact ⟨trivial, h⟩
  | cons r before ih => exact ⟨⟨h.1, (ih h.2).1⟩, (ih h.2).2⟩

theorem slot_eq (gs : List Group) (r : Read) :
    slot (gs.all Group.admitted) r = if Passes gs r then some r.token.toZZ else none := by
  rcases read_cases r with h | h | h | h | h | h | h | h
  case inr.inr.inr.inr.inr.inr.inr =>
    have hlex : r.token.lex ≠ 0 := fun h0 => h (by simp [h0])
    rw [slot_ordinary h]
    by_cases hall : ∀ g ∈ gs, g.admitted = true <;> simp [Passes, h, hlex, hall]
  all_goals simp [slot, Passes, Ordinary, h]

/-- **Run lemma.** A well formed stream is read without leaving the array, what
it leaves in the window is `delivered`, and the static variables match the
groups that enclose its end. -/
theorem matches_run {s : Filter} {gs : List Group} {rs : List Read} (h : Matches s gs)
    (place : Throughout WellPlaced gs rs) :
    ∃ s', Filter.readAll rs s = .ok (s', delivered gs rs) ∧ Matches s' (rs.foldl enclose gs) := by
  induction rs generalizing s gs with
  | nil => exact ⟨s, rfl, h⟩
  | cons r rs ih =>
    obtain ⟨t, ht, hm⟩ := matches_step h place.1
    obtain ⟨s', hs', hm'⟩ := ih hm place.2
    refine ⟨s', ?_, hm'⟩
    simp only [Filter.readAll, ht, hs', delivered, slot_eq, bind, Except.bind, pure, Except.pure]
    split <;> rfl

/-- A stream whose directives are in place is read without leaving the array,
whatever the conditions and brace levels are. -/
theorem inPlace_run {s : Filter} {gs : List Group} {rs : List Read}
    (hd : s.depth = gs.length) (hn : gs.length < ifstackSize)
    (place : Throughout InPlace gs rs) : ∃ s' zs, Filter.readAll rs s = .ok (s', zs) := by
  induction rs generalizing s gs with
  | nil => exact ⟨s, [], rfl⟩
  | cons r rs ih =>
    obtain ⟨⟨group, size⟩, rest⟩ := place
    have length := length_enclose group
    obtain ⟨t, ht, hd', -⟩ := readToken_ok hd hn (r := r)
      (fun hc => by simpa using group hc) (by rw [← length]; exact size)
    obtain ⟨s', zs, hs'⟩ := ih (by rw [hd', length]) size rest
    exact ⟨s', _, by simp [Filter.readAll, ht, hs', bind, Except.bind, pure, Except.pure]; rfl⟩

/-! ### Any sequence of calls of `f_read` -/

/-- The window holds the tokens `zs`: all of them have been stored, and the last
`ZZSIZE` of them are still there. -/
def Stored (zs : List ZZSTYPE) (s : Reader) : Prop :=
  s.ivt = zs.length ∧
    ∀ k z, zs[k]? = some z → zs.length ≤ k + ZZSIZE → s.v (k % ZZSIZE) = z

theorem Stored.store {zs : List ZZSTYPE} {s : Reader} (h : Stored zs s) (z : Option ZZSTYPE) :
    Stored (zs ++ z.toList) (s.store z) := by
  obtain ⟨hivt, hv⟩ := h
  cases z with
  | none => simpa [Reader.store] using ⟨hivt, hv⟩
  | some z =>
    refine ⟨by simp [Reader.store, hivt], fun k w hk hsize => ?_⟩
    simp only [Option.toList_some, List.length_append, List.length_cons, List.length_nil]
      at hk hsize
    by_cases hlast : k = zs.length
    · subst hlast
      have : z = w := by simpa using hk
      simp [Reader.store, hivt, this]
    · have hlt : k < zs.length := by
        have := (List.getElem?_eq_some_iff.mp hk).1
        simp at this
        omega
      rw [List.getElem?_append_left hlt] at hk
      -- the slot of `k` is not the one that is overwritten
      have other : k % ZZSIZE ≠ zs.length % ZZSIZE := by
        simp only [ZZSIZE] at hsize ⊢
        omega
      simp only [Reader.store, hivt, Function.update_of_ne other]
      exact hv k w hk (by omega)

theorem readAll_cons_ok {s t : Filter} {r : Read} {rs : List Read} {zs : List ZZSTYPE} :
    s.readAll (r :: rs) = .ok (t, zs) ↔
      ∃ m z zs', s.readToken r = .ok (m, z) ∧ m.readAll rs = .ok (t, zs') ∧
        zs = z.toList ++ zs' := by
  cases hr : s.readToken r with
  | error f => simp [Filter.readAll, hr, bind, Except.bind]
  | ok v =>
    obtain ⟨m, z⟩ := v
    cases hrs : m.readAll rs with
    | error f =>
      simp only [Filter.readAll, hr, hrs, bind, Except.bind, reduceCtorEq, false_iff]
      rintro ⟨m', z', zs', heq, hrs', -⟩
      cases heq
      rw [hrs] at hrs'
      cases hrs'
    | ok w =>
      obtain ⟨t', zs'⟩ := w
      simp only [Filter.readAll, hr, hrs, bind, Except.bind, pure, Except.pure]
      constructor
      · intro h
        cases h
        exact ⟨m, z, zs', rfl, hrs, rfl⟩
      · rintro ⟨m', z', zs'', heq, hrs', rfl⟩
        cases heq
        rw [hrs] at hrs'
        cases hrs'
        rfl

/-- Reading one more token at the end. -/
theorem readAll_concat {s t : Filter} {rs : List Read} {r : Read} {zs : List ZZSTYPE}
    (h : s.readAll rs = .ok (t, zs)) :
    s.readAll (rs ++ [r]) =
      (t.readToken r).map fun out => (out.1, zs ++ out.2.toList) := by
  induction rs generalizing s zs with
  | nil =>
    cases h
    cases hr : t.readToken r <;>
      simp [Filter.readAll, hr, bind, Except.bind, pure, Except.pure, Except.map]
  | cons r' rs ih =>
    obtain ⟨m, z, zs', hr, hrs, rfl⟩ := readAll_cons_ok.mp h
    simp only [List.cons_append, Filter.readAll, hr, ih hrs, bind, Except.bind]
    cases t.readToken r <;> simp [Except.map, pure, Except.pure]

/-- The reader has taken the tokens `taken`, and stored what the loop body gives
for them. -/
def Taken (taken : List Read) (s : Reader) : Prop :=
  ∃ zs, Filter.init.readAll taken = .ok (s.filter, zs) ∧ Stored zs s

/-- The result of reading from the input `rs` after `taken`: more tokens have been
taken, or the loop body left the array on a part of the input, or the input was
too short. -/
def TakesFrom (taken rs : List Read) : Except Fault (Reader × List Read) → Prop
  | .ok (s, rest) => ∃ more, rs = more ++ rest ∧ Taken (taken ++ more) s
  | .error .bounds => ∃ more rest, rs = more ++ rest ∧
      Filter.init.readAll (taken ++ more) = .error .bounds
  | .error .input => True

theorem TakesFrom.prepend {taken more rs : List Read} {out : Except Fault (Reader × List Read)}
    (h : TakesFrom (taken ++ more) rs out) : TakesFrom taken (more ++ rs) out := by
  match out, h with
  | .ok (s, rest), ⟨more', hrs, htaken⟩ =>
    exact ⟨more ++ more', by simp [hrs], by simpa using htaken⟩
  | .error .bounds, ⟨more', rest, hrs, herr⟩ =>
    exact ⟨more ++ more', rest, by simp [hrs], by simpa using herr⟩
  | .error .input, _ => trivial

/-- One call of `f_read` takes tokens from the input and stores what the loop
body gives for them. -/
theorem f_read_taken {i : Nat} {rs taken : List Read} {s : Reader} (h : Taken taken s) :
    TakesFrom taken rs (f_read i rs s) := by
  induction rs generalizing taken s with
  | nil =>
    unfold f_read
    split
    · trivial
    · exact ⟨[], rfl, by simpa using h⟩
  | cons r rs ih =>
    unfold f_read
    split
    case isFalse => exact ⟨[], rfl, by simpa using h⟩
    obtain ⟨zs, hzs, stored⟩ := h
    cases hr : s.filter.readToken r with
    | error f =>
      cases f with
      | input => trivial
      | bounds => exact ⟨[r], rs, rfl, by rw [readAll_concat hzs, hr]; rfl⟩
    | ok v =>
      obtain ⟨f, z⟩ := v
      have next : Taken (taken ++ [r]) (Reader.store { s with filter := f } z) := by
        refine ⟨zs ++ z.toList, ?_, Stored.store (s := { s with filter := f }) stored z⟩
        rw [readAll_concat hzs, hr]
        cases z <;> rfl
      exact (ih next).prepend

/-- The same for any sequence of calls. -/
theorem f_reads_taken {calls : List (Nat × Nat)} {rs taken : List Read} {s : Reader}
    (h : Taken taken s) : TakesFrom taken rs (f_reads calls rs s) := by
  induction calls generalizing rs taken s with
  | nil => exact ⟨[], rfl, by simpa using h⟩
  | cons call calls ih =>
    obtain ⟨iva, i⟩ := call
    have moved : Taken taken { s with iva } := h
    have first : TakesFrom taken rs (f_read i rs { s with iva }) := f_read_taken moved
    unfold f_reads
    match hcall : f_read i rs { s with iva }, first with
    | .ok (s', rest), ⟨more, hrs, htaken⟩ =>
      subst hrs
      exact (ih htaken).prepend
    | .error .bounds, herr => exact herr
    | .error .input, _ => trivial

theorem Taken_init : Taken [] Reader.init :=
  ⟨[], rfl, rfl, by simp⟩

/-- **The conditional compilation filter.** For every stream of tokens and every
sequence of calls of `f_read`: if no directive is stray and the nesting stays
below the size of the array, the array is only indexed inside its bounds; and if
moreover no branch follows an `#else` and the directives of each group stand at
the brace level of its `#if`, the tokens stored are the end-of-file tokens and
exactly those ordinary tokens all of whose enclosing groups are admitted. -/
theorem f_read_filter (rs : List Read) (calls : List (Nat × Nat)) :
    (Throughout InPlace [] rs → f_reads calls rs Reader.init ≠ .error .bounds) ∧
    (Throughout WellPlaced [] rs → ∀ s rest, f_reads calls rs Reader.init = .ok (s, rest) →
      ∃ taken, rs = taken ++ rest ∧ Stored (delivered [] taken) s) := by
  have run : TakesFrom [] rs (f_reads calls rs Reader.init) := f_reads_taken Taken_init
  constructor
  · intro place hbounds
    rw [hbounds] at run
    obtain ⟨more, rest, rfl, herr⟩ := run
    obtain ⟨s', zs, hok⟩ : ∃ s' zs, Filter.readAll more Filter.init = .ok (s', zs) :=
      inPlace_run rfl (by simp) place.append.1
    simp only [List.nil_append] at herr
    rw [hok] at herr
    cases herr
  · intro place s rest hok
    rw [hok] at run
    obtain ⟨taken, rfl, zs, hzs, stored⟩ := run
    obtain ⟨s', hread, -⟩ := matches_run Matches_init place.append.1
    rw [List.nil_append, hread] at hzs
    cases hzs
    exact ⟨taken, rfl, stored⟩

/-- A directive or an identifier at brace level 0. -/
def readOf (lex : Nat) (mode : Mode := .FALSE) : Read := ⟨{ lex, mode }, 0⟩

/-- `#if` true, a token, `#else`, a token, `#endif`, end of file: the two tokens
that are stored are the first one and the end of the file. -/
theorem f_read_filter_else :
    ∃ s taken, f_reads [(0, 1)]
        [readOf SN_PP_IF .TRUE, readOf SN_IDENTIFIER, readOf SN_PP_ELSE, readOf SN_IDENTIFIER,
          readOf SN_PP_ENDIF, readOf 0] Reader.init = .ok (s, []) ∧
      Stored (delivered [] taken) s := by
  obtain ⟨taken, -, stored⟩ := (f_read_filter
    [readOf SN_PP_IF .TRUE, readOf SN_IDENTIFIER, readOf SN_PP_ELSE, readOf SN_IDENTIFIER,
      readOf SN_PP_ENDIF, readOf 0] [(0, 1)]).2
    (by decide) _ _ rfl
  exact ⟨_, taken, rfl, stored⟩

/-- After an undetermined `#if` the tokens of an `#elif` whose condition is false
are stored, although the branch is not possibly active. -/
theorem f_read_undetermined_elif :
    Throughout WellPlaced []
        [readOf SN_PP_IF .UNDEF, readOf SN_PP_ELIF .FALSE, readOf SN_IDENTIFIER] ∧
      (∃ s, f_reads [(0, 0)]
          [readOf SN_PP_IF .UNDEF, readOf SN_PP_ELIF .FALSE, readOf SN_IDENTIFIER] Reader.init =
            .ok (s, []) ∧ s.ivt = 1 ∧ s.v 0 = (readOf SN_IDENTIFIER).token.toZZ) ∧
      ¬ ∀ g ∈ enclosing [readOf SN_PP_IF .UNDEF, readOf SN_PP_ELIF .FALSE],
          g.possiblyActive = true := by
  refine ⟨by decide,
    ⟨_, rfl, rfl, rfl⟩, by decide⟩

end SourceNavigator.Cpp
