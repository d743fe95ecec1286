import SourceNavigator.Cpp.QualifiedName
import SourceNavigator.Lib.Program
import SourceNavigator.Symbols

/-!
The state of the first pass of the C/C++ parser (`cpp/cparser.c`).

The parser reads a token by its distance from `iva`, goes on with `step` and
goes back with `Restore_d`. A token has a code for each of the two keyword
modes, and after the last token the lexer delivers the token `0` for ever.
`niveau` counts the open calls, by hand. Symbols and function bodies are
reported at once; a report is never taken back.

The trace is not a part of the program. It records what the functions do: where
a loop begins that has no exit at the end of the file, which position is gone
back to, what a function returned, and the exits with failure that leave the
position or the keyword mode changed.
-/

namespace SourceNavigator.Cpp.FirstPass

open Lib Lib.Program

/-! ### Strings -/

/-- `LongString`: the buffer and the length that is in use. -/
structure LongString where
  buf : Option Text := none
  len : Nat := 0
  deriving DecidableEq, Repr

namespace LongString

def ofText (t : Text) : LongString := ⟨some t, t.length⟩

/-- `append` up to the NUL. -/
def append (plstr : LongString) (t : Text) : LongString where
  buf := some ((plstr.buf.getD []).take plstr.len ++ t)
  len := plstr.len + t.length

/-- `append` with a length; nothing happens when that is zero. -/
def idAppend (plstr : LongString) (t : Text) : LongString :=
  if t = [] then plstr else plstr.append t

def copy (plstr : LongString) (t : Text) : LongString := { plstr with len := 0 }.append t

def idCopy (plstr : LongString) (t : Text) : LongString := { plstr with len := 0 }.idAppend t

/-- The bytes in use. -/
def text (plstr : LongString) : Text := (plstr.buf.getD []).take plstr.len

def setLen (plstr : LongString) (l : Nat) : LongString where
  buf := plstr.buf.map (List.take l)
  len := l

end LongString

/-! ### Declarations -/

abbrev FUNCTION : Nat := 1
abbrev POINTER : Nat := 2
abbrev ARRAY : Nat := 3

def ANONYM : Text := ascii "anonymous"

/-- `struct sClass` -/
structure Class where
  name : LongString := {}
  access : Nat := 0
  lineno_beg : Int := 0
  charno_beg : Int := 0
  lineno_end : Int := 0
  charno_end : Int := 0
  deriving DecidableEq, Repr

/-- `struct sEnum` -/
structure Enum where
  name : LongString := {}
  lineno_beg : Int := 0
  charno_beg : Int := 0
  lineno_end : Int := 0
  charno_end : Int := 0
  deriving DecidableEq, Repr

/-- `struct sDeclaration`. Of the declaration around it only the name is read. -/
structure Declaration where
  outer : Option LongString := none
  name : LongString := {}
  storage_class : Nat := 0
  fct_specifier : Nat := 0
  s_const : Bool := false
  s_volatile : Bool := false
  s_char : Bool := false
  s_short : Bool := false
  s_int : Bool := false
  s_long : Bool := false
  s_signed : Bool := false
  s_unsigned : Bool := false
  s_float : Bool := false
  s_double : Bool := false
  s_bool : Bool := false
  s_void : Bool := false
  type_name : LongString := {}
  type_of_type_name : Nat := 0
  complete_class_name : LongString := {}
  lineno_beg : Int := 0
  charno_beg : Int := 0
  lineno_end : Int := 0
  charno_end : Int := 0
  sClass : Class := {}
  sEnum : Enum := {}
  deriving DecidableEq, Repr

/-- `struct sDeclarator` -/
structure Declarator where
  name : LongString := {}
  type : LongString := {}
  types : LongString := {}
  names : LongString := {}
  base_typ : Nat := 0
  pure : Bool := false
  lineno_beg : Int := 0
  charno_beg : Int := 0
  lineno_end : Int := 0
  charno_end : Int := 0
  name_lineno_beg : Int := 0
  name_charno_beg : Int := 0
  deriving DecidableEq, Repr

/-! ### Reports -/

/-- What is reported with `Put_symbol`, without the file and the comment. -/
structure Symbol where
  type : SymbolType
  scope : Option Text
  sym_name : Option Text
  start_lineno : Int
  start_colpos : Int
  end_lineno : Int
  end_colpos : Int
  attr : Nat
  ret : Option Text
  arg_types : Option Text
  args : Option Text
  start_lineno_highlight : Int
  start_colpos_highlight : Int
  end_lineno_highlight : Int
  end_colpos_highlight : Int
  deriving DecidableEq

/-- What is reported with `put_cross1`, with the keyword mode of the moment. -/
structure Body where
  type : SymbolType
  scope : Option Text
  sym_name : Option Text
  start_lineno : Int
  start_colpos : Int
  end_lineno : Int
  end_colpos : Int
  attr : Nat
  ret : Option Text
  types : Option Text
  names : Option Text
  keyw_cpp : Bool
  deriving DecidableEq

inductive Report
  | symbol (s : Symbol)
  | body (b : Body)
  deriving DecidableEq

/-- The position of the opening brace that a report of a body gives. -/
def Report.brace : Report → Option (Int × Int)
  | symbol _ => none
  | body b => some (b.start_lineno, b.start_colpos)

/-! ### The trace -/

/-- The functions that count themselves in `niveau`, and the two that choose a reading. -/
inductive ParseFunction
  | declaration | _declaration | asm_declaration | template_declaration | extern_declaration
  | linkage_specification | using_ | namespace_definition | obj_declaration | declarator_list
  | declarator | declarator_paren | declarator_star | declarator_identifier | declarator_operator
  | declarator_tilde | ptr_operator | cv_qualifier_list_opt | function_or_array_list
  | function_operator | array_operator | f_class | base_spec | base_specifier | member_list | member
  | member_declaration | _member_declaration | member_declarator_list | member_declarator | f_enum
  | enum_list | enumerator | operator_function_name | conversion_type_name
  | conversion_type_specifier | complete_class_name | qualified_class_name | qualified_name
  | initializer | ctor_initializer | constant_expression | kr_argument_declaration_list
  | kr_argument_declaration | kr_argument_declarator_list | kr_argument_declarator
  | kr_argument_declarator_paren | kr_argument_declarator_star | kr_argument_declarator_identifier
  | compound_statement | variable_ | function | class_member | class_method
  | template_argument_skip | namespace_name | skip_declaration | skip_member_declaration
  | function_argument_declaration_list | function_argument_declaration | function_argument_class
  | function_argument_enum | function_argument_declarator_one | skip_expression
  | function_argument_declarator | function_argument_declarator_paren
  | function_argument_declarator_star | function_argument_declarator_identifier
  | function_argument_declarator_operator | function_argument_declarator_tilde
  | function_argument_function_or_array_list | function_argument_function_operator
  | function_argument_array_operator | function_argument_base_spec | skip_macro | skip_macro_2
  | skip_member_macro
  deriving DecidableEq, Repr

/-- The loops that look for a token without a test for the end of the file. -/
inductive SkipLoop
  | expression
  | macroCall
  deriving DecidableEq, Repr

/-- The part of the state that a function has to leave in order. -/
structure Standing where
  iva : Nat
  niveau : Int
  deriving DecidableEq, Repr

inductive Event
  /-- A loop without a test for the end of the file begins at these tokens. -/
  | skips (loop : SkipLoop) (left : List StackEntry)
  /-- The position is taken back while these bodies have been reported. -/
  | back (bodies : List (Int × Int)) (iva : Nat)
  /-- A function returns. -/
  | returned (f : ParseFunction) (success : Bool) (entry leaving : Standing)
  /-- A function reports failure and does not go back to where it began. -/
  | unrestored (f : ParseFunction)
  /-- A reading of a declaration failed, with these keyword modes before and after it. -/
  | failed (before after : Bool)
  /-- The readings of a declaration are over: whether one succeeded, and the keyword modes. -/
  | chosen (found : Bool) (before after : Bool)
  /-- The check of `niveau` after a declaration of the main loop. -/
  | check (niveau : Int)
  deriving DecidableEq, Repr

/-! ### The state -/

/-- `ZZSTYPE` -/
structure Entry where
  yytoken : Nat
  yytoken_cpp : Nat
  yytext : Text := []
  yylineno : Int := 0
  yycharno : Int := 0
  deriving DecidableEq, Repr

/-- A token in a keyword mode. -/
def Entry.view (keyw_cpp : Bool) (e : Entry) : StackEntry where
  token := if keyw_cpp then e.yytoken_cpp else e.yytoken
  ident := e.yytext
  lineno := e.yylineno
  charno := e.yycharno

structure State where
  /-- The tokens that `f_read` delivers before the end of the file. -/
  v : List Entry
  /-- The token at the end of the file. -/
  eof : Entry
  iva : Nat := 0
  niveau : Int := 0
  keyw_cpp : Bool
  declaration_try : Nat := 0
  reports : List Report := []
  trace : List Event := []

/-- The tokens from `p` on. -/
def leftFrom (v : List Entry) (keyw_cpp : Bool) (p : Nat) : List StackEntry :=
  (v.drop p).map (Entry.view keyw_cpp)

/-- The code of the token at `p`. -/
def tokenAt (v : List Entry) (keyw_cpp : Bool) (p : Nat) : Nat :=
  (v[p]?.map fun e => (e.view keyw_cpp).token).getD 0

namespace State

def left (s : State) : List StackEntry := leftFrom s.v s.keyw_cpp s.iva

def standing (s : State) : Standing := ⟨s.iva, s.niveau⟩

/-- The opening braces of the bodies reported so far. -/
def bodies (s : State) : List (Int × Int) := s.reports.filterMap Report.brace

def step (s : State) (i : Nat) : State := { s with iva := s.iva + i }

def log (s : State) (e : Event) : State := { s with trace := s.trace ++ [e] }

def back (s : State) (iva_save : Nat) : State :=
  { s with iva := iva_save, trace := s.trace ++ [.back s.bodies iva_save] }

def setNiveau (s : State) (n : Int) : State := { s with niveau := n }

def report (s : State) (r : Report) : State := { s with reports := s.reports ++ [r] }

/-- `keyw_cpp = ! keyw_cpp` -/
def switch (s : State) : State := { s with keyw_cpp := !s.keyw_cpp }

def setTry (s : State) (n : Nat) : State := { s with declaration_try := n }

end State

/-! ### The steps of the functions -/

/-- The tokens are never changed. -/
abbrev M := Program State.v

def token (i : Nat) : M Nat := read fun s => tokenAt s.v s.keyw_cpp (s.iva + i)

def ident (i : Nat) : M Text := read fun s => (s.v[s.iva + i]?.getD s.eof).yytext

def identleng (i : Nat) : M Int := read fun s => (s.v[s.iva + i]?.getD s.eof).yytext.length

def f_lineno (i : Nat) : M Int := read fun s => (s.v[s.iva + i]?.getD s.eof).yylineno

def f_charno (i : Nat) : M Int := read fun s => (s.v[s.iva + i]?.getD s.eof).yycharno

/-- The token before the first one; the stack is filled with zeros at the start. -/
def before (s : State) : Entry := if s.iva = 0 then ⟨0, 0, [], 0, 0⟩ else s.v[s.iva - 1]?.getD s.eof

/-- `f_lineno( -1 )` -/
def lineno_before : M Int := read fun s => (before s).yylineno

/-- `f_charno( -1 )` -/
def charno_before : M Int := read fun s => (before s).yycharno

/-- `identleng( -1 )` -/
def identleng_before : M Int := read fun s => (before s).yytext.length

def step (i : Nat) : M Unit := change fun s => s.step i

/-- `Save_d()` -/
def save : M Nat := read State.iva

def log (e : Event) : M Unit := change fun s => s.log e

/-- `Restore_d()` -/
def restore (iva_save : Nat) : M Unit := change fun s => s.back iva_save

/-- `niveau++` -/
def enter : M Unit := change fun s => s.setNiveau (s.niveau + 1)

/-- `niveau--` -/
def leave : M Unit := change fun s => s.setNiveau (s.niveau - 1)

/-- `niveau = n` -/
def setNiveau (n : Int) : M Unit := change fun s => s.setNiveau n

def put (r : Report) : M Unit := change fun s => s.report r

def Put_symbol (s : Symbol) : M Unit := put (.symbol s)

/-- The call of a function: its return is recorded. -/
def call {α : Type} (f : ParseFunction) (success : α → Bool) (m : M α) : M α := do
  let entry ← read State.standing
  let a ← m
  let leaving ← read State.standing
  log (.returned f (success a) entry leaving)
  pure a

/-- The call of a function without a verdict. -/
def callVoid {α : Type} (f : ParseFunction) (m : M α) : M α := call f (fun _ => true) m

/-! ### Loops over tokens -/

/-- The number of tokens a loop steps over until it is left. `next` has no value where the loop is
left. At the end of the file a loop that is not left there goes on for ever. -/
def scan {β : Type} (next : β → List StackEntry → Option β) : β → List StackEntry → Option (Nat × β)
  | b, [] => if (next b []).isNone then some (0, b) else none
  | b, t :: ts =>
    match next b (t :: ts) with
    | none => some (0, b)
    | some b' => (scan next b' ts).map fun found => (found.1 + 1, found.2)

/-- What the loop has counted after `n` rounds, if it was not left before. -/
def roundsOf {β : Type} (next : β → List StackEntry → Option β) :
    Nat → β → List StackEntry → Option β
  | 0, b, _ => some b
  | n + 1, b, ts => (next b ts).bind fun b' => roundsOf next n b' ts.tail

/-- A loop that steps from token to token. -/
def scanning {β : Type} (next : β → List StackEntry → Option β) (b : β) : M β where
  run s :=
    match scan next b s.left with
    | some (k, b') => .done b' (s.step k)
    | none => .endless s
  keeps s := by
    split <;> rfl

/-- A loop without a test for the end of the file. -/
def skipping {β : Type} (loop : SkipLoop) (next : β → List StackEntry → Option β) (b : β) : M β := do
  log (.skips loop (← read State.left))
  scanning next b

end SourceNavigator.Cpp.FirstPass
