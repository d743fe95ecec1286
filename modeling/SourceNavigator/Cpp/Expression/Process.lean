import SourceNavigator.Cpp.Expression.Parse

/-!
The walk over an expression (`f_expr` in `cpp/cpplib/cp_process.c`).

The walk computes the type of each part, and puts out the references of the names
it comes to, with the access under which it has come there. For an operator with
two operands it looks up a function of that name. What it calls in this order is
the list of the events. The database, the types and the local symbol table are
parameters.
-/

namespace SourceNavigator.Cpp.Expression

abbrev PAF_MBR_FUNC_DEF : Nat := 3
abbrev PAF_MACRO_DEF : Nat := 7
abbrev PAF_FUNC_DEF : Nat := 8
abbrev PAF_LOCAL_VAR_DEF : Nat := 24
abbrev PAF_REF_UNDEFINED : Nat := 29
abbrev PAF_REF_TO_LOCAL_VAR : Nat := PAF_LOCAL_VAR_DEF
abbrev PAF_REF_SCOPE_LOCAL : Nat := 0
abbrev PAF_REF_SCOPE_GLOBAL : Nat := 1
abbrev PAF_REF_READ : Nat := 0
abbrev PAF_REF_WRITE : Nat := 1
abbrev PAF_REF_PASS : Nat := 2

/-- The bits of an access. -/
structure Access where
  READ : Bool
  WRITE : Bool
  deriving DecidableEq, Repr

abbrev READ : Access := ⟨true, false⟩
abbrev WRITE : Access := ⟨false, true⟩

/-- `READ | WRITE` -/
abbrev READ_WRITE : Access := ⟨true, true⟩

/-- The access that is put out. -/
def pafAccess (access : Access) (pass : Bool) : Nat :=
  (if access.WRITE then PAF_REF_WRITE ||| PAF_REF_READ else 0) ||| (if access.READ then PAF_REF_READ else 0) |||
    (if pass then PAF_REF_PASS else 0)

/-- The arguments of `Put_cross_ref`. -/
structure CrossRef where
  type : Nat
  scope_type : Nat
  scope_lev : Nat
  fnc_cls : Text
  fnc : Text
  fnc_arg_types : Text
  scope : Option Text
  what : Text
  arg_types : Option Text
  file : Text
  lineno : Int
  acc : Nat
  deriving DecidableEq, Repr

/-- What `get_symbol` says of a symbol it finds. -/
structure Symbol where
  paf_type : Nat
  scope_ret : Text
  type_ret : Text
  define_ret : Text

/-- What the walk uses: the function in which the expression stands, the symbols and the types. -/
structure Env (Type_t : Type) where
  scope_g : Text
  sym_name_g : Text
  arg_types_g : Text
  filename_g : Text
  SymtabVariable : Text → Option Type_t
  /-- Scopes, name, argument list and `exact` -/
  Get_symbol : Option Text → Option Text → Text → Option Text → Bool → Option Symbol
  f_TypeFromString : Text → Option Type_t
  f_TypeBasic : Type_t → Int → Type_t
  f_TypeToString : Type_t → Text
  f_TypeDelPointer : Type_t → Type_t
  f_TypeAddPointer : Type_t → Type_t
  f_TypeDelFunction : Type_t → Type_t
  /-- `Type->Name->pcName` -/
  typeName : Type_t → Option Text
  f_TypeCreateInt : Type_t
  f_TypeCreateUnknown : Type_t
  /-- How often a macro is replaced with its name. -/
  rounds : Nat

/-- The calls of `Put_cross_ref`: for the function of an operator, for a macro in front of the name it
stands for, for a variable and for a function. -/
inductive Site
  | operator | chain | variable_ | function
  deriving DecidableEq, Repr

/-- What is called. -/
inductive Event (Type_t Init_t : Type)
  /-- The name and the argument list for which `f_OperatorCall2` looks. -/
  | lookup (acName acArglist : Text)
  | crossRef (site : Site) (ref : CrossRef)
  | f_PutConstructorByNewOrDelete (type : Option Type_t) (lineno : Int) (DESTRUCTOR : Bool)
  | f_InitProcess (Init : Init_t)
  | f_TypeProcess (type : Type_t)

/-- `struct sProc` -/
structure Proc_t (Type_t : Type) where
  type : Option Type_t := none
  name : Option Text := none
  scope : Option Text := none
  range : Range := ⟨0, 0, 0, 0⟩

/-- A result, with the events. -/
structure Walk (Type_t Init_t : Type) where
  Proc : Proc_t Type_t
  events : List (Event Type_t Init_t)

/-! ### Tables -/

/-- The name of the operator in `f_expr`. -/
def Binary.pcOperator : Binary → Text
  | KOMMA => ascii ","
  | ASSIGN => ascii "="
  | MULTassign => ascii "*="
  | DIVassign => ascii "/="
  | MODassign => ascii "%="
  | PLUSassign => ascii "+="
  | MINUSassign => ascii "-="
  | LSassign => ascii "<<="
  | RSassign => ascii ">>="
  | ANDassign => ascii "&="
  | ERassign => ascii "^="
  | ORassign => ascii "|="
  | OROR => ascii "||"
  | ANDAND => ascii "&&"
  | OR => ascii "|"
  | ER => ascii "'"
  | AND => ascii "&"
  | EQ => ascii "=="
  | NE => ascii "!="
  | L => ascii "<"
  | G => ascii ">"
  | LE => ascii ">="
  | GE => ascii "<="
  | LS => ascii "<<"
  | RS => ascii ">>"
  | PLUS => ascii "+"
  | MINUS => ascii "-"
  | MULT => ascii "*"
  | DIV => ascii "/"
  | MOD => ascii "%"
  | DOTstar => ascii ".*"
  | ARROWstar => ascii "->*"

/-- The assignment operators. -/
def Binary.isAssign : Binary → Bool
  | ASSIGN | MULTassign | DIVassign | MODassign | PLUSassign | MINUSassign | LSassign | RSassign | ANDassign
  | ERassign | ORassign => true
  | _ => false

/-- The operators behind which members are looked for. -/
def Binary.isMember : Binary → Bool
  | DOTstar | ARROWstar => true
  | _ => false

/-- The access of the first operand. -/
def Binary.access1 (operator : Binary) : Access := if operator.isAssign then WRITE else READ

/-- The operators that access their operand as they are accessed themselves, and the others. -/
def Unary.access1 (operator : Unary) (access : Access) : Access :=
  match operator with
  | PRE_ICR | PRE_DECR | POST_ICR | POST_DECR => READ_WRITE
  | STAR | ET => access
  | SIZEOF_EXPRESSION | SIZEOF_TYPENAME | UPLUS | UMINUS | NOT | BNOT | DELETE => READ

section Walk

variable {Type_t Init_t : Type} (env : Env Type_t)

/-- The type where no function is found. -/
def Binary.type (operator : Binary) (Type1 Type2 : Option Type_t) : Option Type_t :=
  match operator with
  | KOMMA | DOTstar | ARROWstar => Type2
  | OROR | ANDAND | EQ | NE | L | G | LE | GE | MOD => some env.f_TypeCreateInt
  | _ => Type1

def Unary.type (operator : Unary) (Type1 : Option Type_t) : Option Type_t :=
  match operator with
  | PRE_ICR | PRE_DECR | POST_ICR | POST_DECR | UPLUS | UMINUS | BNOT => Type1
  | STAR => Type1.map env.f_TypeDelPointer
  | ET => Type1.map env.f_TypeAddPointer
  | SIZEOF_EXPRESSION | SIZEOF_TYPENAME | NOT | DELETE => some env.f_TypeCreateInt

/-! ### Symbols -/

/-- The parts of a name in front of its last colon and behind it. -/
def lastColon (name : Text) : Option (Text × Text) :=
  let behind := name.reverse.takeWhile fun c => c != ':'.toUInt8
  match name.reverse.drop behind.length with
  | [] => none
  | _ :: front => some (front.reverse, behind.reverse)

def get_scope (name : Text) : Option Text :=
  match lastColon name with
  | none => none
  | some (front, _) => if front.getLast? = some ':'.toUInt8 then some front.dropLast else none

def get_name (name : Text) : Text :=
  match lastColon name with
  | none => name
  | some (_, behind) => behind

def my_Get_symbol (scope_global scope : Option Text) (name : Text) (arg_list : Option Text) : Option Symbol :=
  let acName := name.map fun c => if c = ' '.toUInt8 then '_'.toUInt8 else c
  match env.Get_symbol scope_global scope acName arg_list false with
  | some found => some found
  | none =>
    match scope with
    | none => none
    | some scope =>
      match cut '<'.toUInt8 scope with
      | none => none
      | some (front, _) => env.Get_symbol scope_global (some front) acName arg_list false

/-- What is known of a name. -/
structure Found (Type_t : Type) where
  type : Option Type_t
  paf_type : Nat := 0
  paf_scope : Nat := PAF_REF_SCOPE_GLOBAL
  acScope : Text := []
  acRetDefine : Text := []

def get_variable_type (scope_global scope : Option Text) (name : Text) (lineno_beg : Int) : Found Type_t :=
  match (if scope.isNone then env.SymtabVariable name else none) with
  | some type => { type := some type, paf_type := PAF_REF_TO_LOCAL_VAR, paf_scope := PAF_REF_SCOPE_LOCAL }
  | none =>
    match my_Get_symbol env scope_global scope name none with
    | none => { type := some env.f_TypeCreateUnknown }
    | some found =>
      { type := some (((env.f_TypeFromString found.type_ret).map fun type => env.f_TypeBasic type lineno_beg).getD
          env.f_TypeCreateInt)
        paf_type := found.paf_type, acScope := found.scope_ret, acRetDefine := found.define_ret }

def get_function_type (scope_global scope : Option Text) (name arglist : Text) : Found Type_t :=
  match my_Get_symbol env scope_global scope name (some arglist) with
  | none => { type := some env.f_TypeCreateUnknown }
  | some found =>
    { type := some ((env.f_TypeFromString found.type_ret).getD env.f_TypeCreateInt)
      paf_type := found.paf_type, acScope := found.scope_ret, acRetDefine := found.define_ret }

/-- `scope_global` -/
def globalScope (object : Text) : Option Text :=
  match get_scope object with
  | some scope => some scope
  | none => if env.scope_g = [] then none else some env.scope_g

/-- The reference that is put out for a name of which this is known. -/
def crossRef (found : Found Type_t) (scope : Option Text) (name : Text) (arg_types : Option Text) (lineno : Int)
    (acc : Nat) : CrossRef where
  type := if found.paf_type = 0 then PAF_REF_UNDEFINED else found.paf_type
  scope_type := if env.scope_g = [] then PAF_FUNC_DEF else PAF_MBR_FUNC_DEF
  scope_lev := if found.paf_type = 0 then PAF_REF_SCOPE_GLOBAL else found.paf_scope
  fnc_cls := env.scope_g
  fnc := env.sym_name_g
  fnc_arg_types := env.arg_types_g
  scope := scope
  what := name
  arg_types := arg_types
  file := env.filename_g
  lineno := lineno
  acc := acc

/-- The loop that goes on from a macro to the name it stands for, unless that has been gone through. The
result is the last name and what is known of it. -/
def chain (find : Text → Found Type_t) (ref : Text → Found Type_t → CrossRef) :
    Nat → Text → List Text → Text × Found Type_t × List (Event Type_t Init_t)
  | 0, object, _ => (object, find object, [])
  | n + 1, object, macro_chain =>
    let found := find object
    if found.paf_type = PAF_MACRO_DEF ∧ found.acRetDefine ≠ [] then
      let names := if macro_chain = [] then [object] else macro_chain
      if found.acRetDefine ∈ names then (object, found, [])
      else
        let next := chain find ref n (found.acRetDefine.take 999) (names ++ [found.acRetDefine])
        (next.1, next.2.1,
          (if macro_chain = [] then [.crossRef .chain (ref object found)] else []) ++ next.2.2)
    else (object, found, [])

/-- In front of the last name only macros are put out. -/
theorem event_of_chain {find : Text → Found Type_t} {ref : Text → Found Type_t → CrossRef} {n : Nat} {object : Text}
    {names : List Text} {event : Event Type_t Init_t} (mem : event ∈ (chain find ref n object names).2.2) :
    ∃ r, event = .crossRef .chain r := by
  induction n generalizing object names with
  | zero => cases mem
  | succ n ih =>
    rw [chain] at mem
    simp only at mem
    by_cases isMacro : (find object).paf_type = PAF_MACRO_DEF ∧ (find object).acRetDefine ≠ []
    · rw [if_pos isMacro] at mem
      by_cases known : (find object).acRetDefine ∈ if names = [] then [object] else names
      · rw [if_pos known] at mem
        cases mem
      · rw [if_neg known] at mem
        rcases List.mem_append.mp mem with first | more
        · by_cases none_ : names = []
          · rw [if_pos none_] at first
            exact ⟨_, List.mem_singleton.mp first⟩
          · rw [if_neg none_] at first
            cases first
        · exact ih more
    · rw [if_neg isMacro] at mem
      cases mem

/-- The scope that is put out for a variable. -/
def variableScope (object : Text) (found : Found Type_t) : Option Text :=
  if found.paf_type = 0 then get_scope object
  else if found.paf_type = PAF_REF_TO_LOCAL_VAR then some env.sym_name_g
  else some found.acScope

def functionScope (object : Text) (found : Found Type_t) : Option Text :=
  if found.paf_type = 0 then get_scope object else some found.acScope

/-- The text of a type, or of none. -/
def typeText (type : Option Type_t) : Text := (type.map env.f_TypeToString).getD []

def f_TypeToScope (type : Option Type_t) : Option Text := type.bind env.typeName

def f_OperatorCall2 (pcOperator : Text) (Type1 Type2 : Option Type_t) (access : Access) (lineno : Int) :
    Option Type_t × List (Event Type_t Init_t) :=
  let acName := ascii "operator" ++ pcOperator
  let acArglist := typeText env Type1 ++ ascii "," ++ typeText env Type2
  match env.Get_symbol (some env.scope_g) none acName (some acArglist) true with
  | none => (none, [.lookup acName acArglist])
  | some found =>
    let ref := crossRef env { type := (none : Option Type_t), paf_type := found.paf_type } (some found.scope_ret) acName
      (some acArglist) lineno (pafAccess access false)
    (env.f_TypeFromString found.type_ret, [.lookup acName acArglist, .crossRef .operator ref])

/-! ### The walk -/

/-- The name of a variable. -/
def nameWalk (Name : Text) (range : Range) (access : Access) (scope : Option Text) (pass : Bool) :
    Walk Type_t Init_t :=
  let find object := get_variable_type env (globalScope env object) scope (get_name object) range.lineno_beg
  let ref acc object found :=
    crossRef env found (variableScope env object found) (get_name object) none range.lineno_beg acc
  let last := chain find (ref PAF_REF_READ) env.rounds Name []
  { Proc := { type := last.2.1.type, name := some last.1, scope, range }
    events := last.2.2 ++ [.crossRef .variable_ (ref (pafAccess access pass) last.1 last.2.1)] }

/-- The name of a function with the types of its arguments. -/
def functionWalk (Name : Text) (Proc1 : Proc_t Type_t) (acArglist : Text) (access : Access) (pass : Bool) :
    Option Type_t × List (Event Type_t Init_t) :=
  let find object := get_function_type env (globalScope env object) Proc1.scope (get_name object) acArglist
  let ref acc object found :=
    crossRef env found (functionScope object found) (get_name object) (some acArglist) Proc1.range.lineno_beg acc
  let last := chain find (ref PAF_REF_READ) env.rounds Name []
  (last.2.1.type, last.2.2 ++ [.crossRef .function (ref (pafAccess access pass) last.1 last.2.1)])

/-- The scope of the second operand. -/
def Binary.scope2 (operator : Binary) (Type1 : Option Type_t) (scope : Option Text) : Option Text :=
  if operator.isMember then f_TypeToScope env Type1 else scope

/-- `Expr->lineno_beg`, which is set for names and types. -/
def Expr_t.lineno_beg : Expr_t Type_t Init_t → Int
  | .OPERATOR_NAME _ range => range.lineno_beg
  | .OPERATOR_TYPE _ range => range.lineno_beg
  | _ => 0

mutual

def f_expr : Expr_t Type_t Init_t → Access → Option Text → Bool → Bool → Walk Type_t Init_t
  | .OPERATOR_NAME Name range, access, scope, call, pass =>
    if call then { Proc := { name := some Name, scope, range }, events := [] }
    else nameWalk env Name range access scope pass
  | .OPERATOR_TYPE type range, _, _, _, _ =>
    let type := env.f_TypeBasic type range.lineno_beg
    { Proc := { type := some type }, events := [.f_TypeProcess type] }
  | .unary operator Expr1, access, scope, _, pass =>
    let walk1 := f_expr Expr1 (operator.access1 access) scope false pass
    { Proc := { type := operator.type env walk1.Proc.type }
      events := walk1.events ++
        if operator = .DELETE then [.f_PutConstructorByNewOrDelete walk1.Proc.type 0 true] else [] }
  | .binary operator Expr1 Expr2, access, scope, _, pass =>
    let walk1 := f_expr Expr1 operator.access1 scope false pass
    let walk2 := f_expr Expr2 READ (operator.scope2 env walk1.Proc.type scope) false pass
    let called := f_OperatorCall2 env operator.pcOperator walk1.Proc.type walk2.Proc.type access 0
    let type := called.1.or (operator.type env walk1.Proc.type walk2.Proc.type)
    { Proc := { type := if operator.isMember then type.map env.f_TypeDelPointer else type }
      events := walk1.events ++ walk2.events ++ called.2 }
  | .OPERATOR_CONDITIONAL Expr1 Expr2 Expr3, _, scope, _, pass =>
    let walk1 := f_expr Expr1 READ scope false pass
    let walk2 := f_expr Expr2 READ scope false pass
    let walk3 := f_expr Expr3 READ scope false pass
    { Proc := { type := walk2.Proc.type }, events := walk1.events ++ walk2.events ++ walk3.events }
  | .OPERATOR_CAST Expr1 Expr2, _, scope, _, pass =>
    let walk1 := f_expr Expr1 READ scope false pass
    let walk2 := f_expr Expr2 READ scope false pass
    { Proc := { walk2.Proc with type := walk1.Proc.type }, events := walk1.events ++ walk2.events }
  | .OPERATOR_ARRAY Expr1 Expr2, access, scope, _, pass =>
    let walk1 := f_expr Expr1 access scope false pass
    let walk2 := f_expr Expr2 READ scope false pass
    { Proc := { type := walk1.Proc.type.map env.f_TypeDelPointer }, events := walk1.events ++ walk2.events }
  | .member _ Expr1 Expr2, access, scope, call, pass =>
    let walk1 := f_expr Expr1 access scope false pass
    let walk2 := f_expr Expr2 access (f_TypeToScope env walk1.Proc.type) call pass
    { Proc := walk2.Proc, events := walk1.events ++ walk2.events }
  | .call .FUNCTION_CALL Expr1 ListExpr, access, scope, _, pass =>
    let walk1 := f_expr Expr1 READ scope true pass
    let arguments := f_exprlist ListExpr true
    match walk1.Proc.name with
    | some name =>
      let called := functionWalk env name walk1.Proc (List.intercalate (ascii ",") arguments.1) access pass
      { Proc := { type := called.1 }, events := walk1.events ++ arguments.2 ++ called.2 }
    | none =>
      { Proc := { type := walk1.Proc.type.map env.f_TypeDelFunction }, events := walk1.events ++ arguments.2 }
  | .call .CONSTRUCTOR_CALL Expr1 ListExpr, _, scope, _, pass =>
    let walk1 := f_expr Expr1 READ scope false pass
    { Proc := { type := walk1.Proc.type }, events := walk1.events ++ (f_exprlist ListExpr true).2 }
  | .OPERATOR_NEW Expr1 Init ListExpr, _, scope, _, pass =>
    let walk1 := f_expr Expr1 READ scope false pass
    { Proc := { type := walk1.Proc.type }
      events := walk1.events ++ (f_exprlist ListExpr true).2 ++
        .f_PutConstructorByNewOrDelete walk1.Proc.type Expr1.lineno_beg false :: (Init.map .f_InitProcess).toList }

/-- The texts of the types, and the events. -/
def f_exprlist : List (Expr_t Type_t Init_t) → Bool → List Text × List (Event Type_t Init_t)
  | [], _ => ([], [])
  | Expr :: ListExpr, pass =>
    let walk1 := f_expr Expr READ none false pass
    let more := f_exprlist ListExpr pass
    (typeText env walk1.Proc.type :: more.1, walk1.events ++ more.2)

end

/-- The references that are put out for an expression. -/
def f_ExprProcess (Expr : Expr_t Type_t Init_t) : List (Event Type_t Init_t) := (f_expr env Expr READ none false false).events

end Walk

/-! ### A file without declarations -/

/-- Names are single identifiers, and there are no types. -/
def identifiers : Parts Unit Unit where
  f_Name p := if p.current.token = SN_IDENTIFIER then some (p.current.ident, 1) else none
  f_CompleteClassName _ := none
  f_TypeName _ := none
  f_NewTypeName _ := none
  f_NewInitializer _ := none
  f_TypeCreate _ := ()
  f_TypeCreateName _ := ()

/-- A file without any symbols. -/
def noSymbols : Env Unit where
  scope_g := []
  sym_name_g := ascii "main"
  arg_types_g := []
  filename_g := ascii "main.c"
  SymtabVariable _ := none
  Get_symbol _ _ _ _ _ := none
  f_TypeFromString _ := none
  f_TypeBasic type _ := type
  f_TypeToString _ := ascii "unknown"
  f_TypeDelPointer type := type
  f_TypeAddPointer type := type
  f_TypeDelFunction type := type
  typeName _ := none
  f_TypeCreateInt := ()
  f_TypeCreateUnknown := ()
  rounds := 0

def identifierToken (name : String) : StackEntry := { token := SN_IDENTIFIER, ident := ascii name }

end SourceNavigator.Cpp.Expression
