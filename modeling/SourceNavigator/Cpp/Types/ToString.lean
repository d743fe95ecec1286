import SourceNavigator.Cpp.Types.FromString

/-!
Types that are written to a text (`f_TypeToString` in `cpp/cpplib/cp_type.c`,
`f_DeclaratorStrcat` and `f_OperStrcat` in `cp_declarator.c`, `f_DeclarationStrcat` in
`cp_declaration.c`).

The specifiers come first, each a word. The operators of a declarator are put
around the name, from the first one on: a pointer goes in front of what is there
already, an array or a function behind it, with parentheses around what is
there if the operator before was a pointer.
-/

namespace SourceNavigator.Cpp.Types

/-! ### Words -/

def wordIf (b : Bool) (word : Text) : List Text := if b then [word] else []

def f_Strcats (pc : Text) (words : List Text) : Text := words.foldl f_Strcat pc

/-- The keywords of the type itself. -/
def typeKeywords (s : Specifiers) : List Text :=
  wordIf (s.s_short && !s.s_int && !s.s_float && !s.s_double) (ascii "short") ++
  wordIf (s.s_long && !s.s_int && !s.s_float && !s.s_double) (ascii "long") ++
  wordIf s.s_char (ascii "char") ++
  wordIf s.s_int (if s.s_long then ascii "long" else if s.s_short then ascii "short" else ascii "int") ++
  wordIf s.s_float (if s.s_long then ascii "double" else ascii "float") ++
  wordIf s.s_double (if s.s_short then ascii "float" else ascii "double") ++
  wordIf s.s_bool (ascii "bool") ++
  wordIf s.s_void (ascii "void")

def cvWords (s_const s_volatile : Bool) : List Text :=
  wordIf s_const (ascii "const") ++ wordIf s_volatile (ascii "volatile")

/-- The name of a class or of an enumeration, or `anonymous` where there is none. -/
def tagWords (anonymous : List Text) : Option (Option Text) → List Text
  | none => []
  | some none => anonymous
  | some (some Name) => [Name]

/-- The words that `f_TypeStrcat` appends. -/
def typeWords (s : Specifiers) : List Text :=
  wordIf (s.fct_specifier == SN_INLINE) (ascii "inline") ++
  wordIf (s.fct_specifier == SN_VIRTUAL) (ascii "virtual") ++
  wordIf s.s_unknown (ascii "unknown") ++
  wordIf s.s_ellipsis (ascii "...") ++
  cvWords s.s_const s.s_volatile ++ wordIf s.s_unsigned (ascii "unsigned") ++ typeKeywords s ++
  s.Name.toList ++ tagWords [] s.Class ++ tagWords [] s.Enum ++
  wordIf (!(s.s_unknown || s.s_ellipsis || !(typeKeywords s).isEmpty || s.Name.isSome ||
    s.Class.isSome || s.Enum.isSome)) (ascii "int")

def storageWords (storage_class : Nat) : List Text :=
  if storage_class = SN_EXTERN then [ascii "extern"]
  else if storage_class = SN_STATIC then [ascii "static"]
  else if storage_class = SN_AUTO then [ascii "auto"]
  else if storage_class = SN_REGISTER then [ascii "register"]
  else if storage_class = SN_FRIEND then [ascii "friend"]
  else if storage_class = SN_TYPEDEF then [ascii "typedef"]
  else []

/-- The words that `f_DeclarationStrcat` appends. -/
def declarationWords (s : Specifiers) : List Text :=
  wordIf s.s_ellipsis (ascii "...") ++
  storageWords s.storage_class ++
  wordIf (s.fct_specifier == SN_INLINE) (ascii "inline") ++
  wordIf (s.fct_specifier == SN_VIRTUAL) (ascii "virtual") ++
  cvWords s.s_const s.s_volatile ++ wordIf s.s_unsigned (ascii "unsigned") ++ typeKeywords s ++
  s.Name.toList ++ tagWords [ascii "anonymous"] s.Class ++ tagWords [ascii "anonymous"] s.Enum ++
  wordIf (!(!(typeKeywords s).isEmpty || s.Name.isSome || s.Class.isSome || s.Enum.isSome)) (ascii "int")

/-! ### Operators -/

def Oper.isPointer : Oper → Bool
  | POINTER_STAR .. => true
  | POINTER_AMPERSAND .. => true
  | ARRAY => false
  | FUNCTION _ => false

/-- What stands in front of a pointer's operand. -/
def starText (Name : Option Text) : Text :=
  match Name with
  | some pcName => f_Strcat (f_Strcat (f_Strcat [] pcName) (ascii "::")) (ascii "*")
  | none => f_Strcat [] (ascii "*")

/-- Parentheses around the text behind a pointer. -/
def enclose (pc : Text) (pointer : Bool) : Text :=
  if pointer then f_Strcat (f_Strcat (f_Strcat [] (ascii "(")) pc) (ascii ")") else pc

mutual

/-- `pointer` says whether the operator before was one. -/
def f_OperStrcat (pc : Text) (pointer : Bool) : Oper → Text
  | .POINTER_STAR s_const s_volatile Name =>
    f_Strcat (f_Strcats (starText Name) (cvWords s_const s_volatile)) pc
  | .POINTER_AMPERSAND s_const s_volatile =>
    f_Strcat (f_Strcats (f_Strcat [] (ascii "&")) (cvWords s_const s_volatile)) pc
  | .ARRAY => f_Strcat (enclose pc pointer) (ascii "[]")
  | .FUNCTION ListDeclaration =>
    f_Strcat (argumentsStrcat (f_Strcat (enclose pc pointer) (ascii "(")) true ListDeclaration) (ascii ")")

/-- The loop over the arguments. -/
def argumentsStrcat (pc : Text) (bFirst : Bool) : List Declaration → Text
  | [] => pc
  | Declaration :: l =>
    argumentsStrcat (f_DeclarationStrcat (if bFirst then pc else f_Strcat pc (ascii ",")) Declaration) false l

def f_DeclarationStrcat (pc : Text) : Declaration → Text
  | .mk specifiers ListDeclarator =>
    declaratorsStrcat (f_Strcats pc (declarationWords specifiers)) true ListDeclarator

/-- The loop over the declarators. -/
def declaratorsStrcat (pc : Text) (bFirst : Bool) : List Declarator → Text
  | [] => pc
  | Declarator :: l =>
    declaratorsStrcat
      (f_DeclaratorStrcat (if bFirst then pc else f_Strcat pc (ascii ",")) Declarator false) false l

def f_DeclaratorStrcat (pc : Text) : Declarator → Bool → Text
  | .mk Name ListOper, exact => f_Strcat pc (opersStrcat (if exact then Name.getD [] else []) false ListOper)

/-- The loop over the operators. -/
def opersStrcat (ac : Text) (pointer : Bool) : List Oper → Text
  | [] => ac
  | Oper :: l => opersStrcat (f_OperStrcat ac pointer Oper) Oper.isPointer l

end

def f_TypeStrcat (pc : Text) (type : Option Type_t) (exact : Bool) : Text :=
  match type with
  | none => pc
  | some type =>
    let pc := f_Strcats pc (typeWords type.specifiers)
    match type.Declarator with
    | none => pc
    | some Declarator => f_DeclaratorStrcat pc Declarator exact

def f_TypeToString (type : Option Type_t) (exact : Bool) : Text := f_TypeStrcat [] type exact

end SourceNavigator.Cpp.Types
