import SourceNavigator.Cpp.Types.ToString

/-!
Plain types.

What is written of a type are the words of its specifiers and its operators,
where the type of an argument is again made of words and operators. A `Plain`
type has nothing else: declared names are forgotten, and so is how the words came
about. Types with the same plain type have the same text.
-/

namespace SourceNavigator.Cpp.Types

mutual

/-- An operator of a declarator. -/
inductive Operator
  | pointer (s_const s_volatile : Bool) (Name : Option Text)
  | reference (s_const s_volatile : Bool)
  | array
  | function (arguments : List Plain)

/-- The words of the specifiers and the operators, from the innermost one on. -/
inductive Plain
  | mk (words : List Text) (operators : List Operator)

end

namespace Plain

def words : Plain → List Text
  | mk words _ => words

def operators : Plain → List Operator
  | mk _ operators => operators

end Plain

mutual

def Oper.plain : Oper → Operator
  | .POINTER_STAR s_const s_volatile Name => .pointer s_const s_volatile Name
  | .POINTER_AMPERSAND s_const s_volatile => .reference s_const s_volatile
  | .ARRAY => .array
  | .FUNCTION ListDeclaration => .function (plainArguments ListDeclaration)

def plainArguments : List Declaration → List Plain
  | [] => []
  | declaration :: l => declaration.plain :: plainArguments l

def Declaration.plain : Declaration → Plain
  | .mk specifiers ListDeclarator => .mk (declarationWords specifiers) (plainDeclarators ListDeclarator)

def plainDeclarators : List Declarator → List Operator
  | [] => []
  | declarator :: l => declarator.plain ++ plainDeclarators l

def Declarator.plain : Declarator → List Operator
  | .mk _ ListOper => plainOpers ListOper

def plainOpers : List Oper → List Operator
  | [] => []
  | oper :: l => oper.plain :: plainOpers l

end

def Type_t.plain (type : Type_t) : Plain :=
  .mk (typeWords type.specifiers) (plainDeclarators type.Declarator.toList)

/-! ### The text of a plain type -/

def Operator.isPointer : Operator → Bool
  | pointer .. => true
  | reference .. => true
  | array => false
  | function _ => false

mutual

def Operator.strcat (pc : Text) (pointer : Bool) : Operator → Text
  | .pointer s_const s_volatile Name => f_Strcat (f_Strcats (starText Name) (cvWords s_const s_volatile)) pc
  | .reference s_const s_volatile =>
    f_Strcat (f_Strcats (f_Strcat [] (ascii "&")) (cvWords s_const s_volatile)) pc
  | .array => f_Strcat (enclose pc pointer) (ascii "[]")
  | .function arguments =>
    f_Strcat (Plain.strcats (f_Strcat (enclose pc pointer) (ascii "(")) true arguments) (ascii ")")

def Plain.strcats (pc : Text) (bFirst : Bool) : List Plain → Text
  | [] => pc
  | argument :: l =>
    Plain.strcats (Plain.strcat (if bFirst then pc else f_Strcat pc (ascii ",")) argument) false l

def Plain.strcat (pc : Text) : Plain → Text
  | .mk words operators => f_Strcat (f_Strcats pc words) (Operator.strcats [] false operators)

def Operator.strcats (ac : Text) (pointer : Bool) : List Operator → Text
  | [] => ac
  | operator :: l => Operator.strcats (Operator.strcat ac pointer operator) operator.isPointer l

end

def Plain.text (p : Plain) : Text := Plain.strcat [] p

/-! ### One declarator for an argument -/

mutual

/-- The arguments have at most one declarator each. -/
def Oper.Single : Oper → Prop
  | .POINTER_STAR .. => True
  | .POINTER_AMPERSAND .. => True
  | .ARRAY => True
  | .FUNCTION ListDeclaration => singleArguments ListDeclaration

def singleArguments : List Declaration → Prop
  | [] => True
  | declaration :: l => declaration.Single ∧ singleArguments l

def Declaration.Single : Declaration → Prop
  | .mk _ ListDeclarator => ListDeclarator.length ≤ 1 ∧ singleDeclarators ListDeclarator

def singleDeclarators : List Declarator → Prop
  | [] => True
  | declarator :: l => declarator.Single ∧ singleDeclarators l

def Declarator.Single : Declarator → Prop
  | .mk _ ListOper => singleOpers ListOper

def singleOpers : List Oper → Prop
  | [] => True
  | oper :: l => oper.Single ∧ singleOpers l

end

theorem isPointer_plain (oper : Oper) : oper.plain.isPointer = oper.isPointer := by
  cases oper <;> rfl

mutual

/-- The text of an operator is the one of its plain operator. -/
theorem strcat_oper (pc : Text) (pointer : Bool) :
    (oper : Oper) → oper.Single → f_OperStrcat pc pointer oper = oper.plain.strcat pc pointer
  | .POINTER_STAR _ _ _, _ => rfl
  | .POINTER_AMPERSAND _ _, _ => rfl
  | .ARRAY, _ => rfl
  | .FUNCTION ListDeclaration, single => by
    have arguments := strcat_arguments (f_Strcat (enclose pc pointer) (ascii "(")) true ListDeclaration single
    unfold f_OperStrcat Oper.plain Operator.strcat
    rw [arguments]

theorem strcat_arguments (pc : Text) (bFirst : Bool) :
    (l : List Declaration) → singleArguments l →
      argumentsStrcat pc bFirst l = Plain.strcats pc bFirst (plainArguments l)
  | [], _ => rfl
  | declaration :: l, single => by
    unfold argumentsStrcat plainArguments Plain.strcats
    rw [strcat_declaration _ declaration single.1, strcat_arguments _ false l single.2]

theorem strcat_declaration (pc : Text) :
    (declaration : Declaration) → declaration.Single →
      f_DeclarationStrcat pc declaration = declaration.plain.strcat pc
  | .mk specifiers ListDeclarator, single => by
    unfold f_DeclarationStrcat Declaration.plain Plain.strcat
    exact strcat_declarators _ ListDeclarator single.1 single.2

theorem strcat_declarators (pc : Text) :
    (l : List Declarator) → l.length ≤ 1 → singleDeclarators l →
      declaratorsStrcat pc true l = f_Strcat pc (Operator.strcats [] false (plainDeclarators l))
  | [], _, _ => rfl
  | [declarator], _, single => by
    unfold declaratorsStrcat plainDeclarators
    exact strcat_declarator pc declarator single.1
  | _ :: _ :: _, few, _ => absurd few (by simp)

theorem strcat_declarator (pc : Text) :
    (declarator : Declarator) → declarator.Single → f_DeclaratorStrcat pc declarator false =
      f_Strcat pc (Operator.strcats [] false (declarator.plain ++ plainDeclarators []))
  | .mk Name ListOper, single => by
    unfold f_DeclaratorStrcat Declarator.plain plainDeclarators
    rw [List.append_nil, strcat_opers _ false ListOper single]
    rfl

theorem strcat_opers (ac : Text) (pointer : Bool) :
    (l : List Oper) → singleOpers l → opersStrcat ac pointer l = Operator.strcats ac pointer (plainOpers l)
  | [], _ => rfl
  | oper :: l, single => by
    unfold opersStrcat plainOpers Operator.strcats
    rw [strcat_oper ac pointer oper single.1, strcat_opers _ _ l single.2, isPointer_plain]

end

/-- The text of a type is the one of its plain type. -/
theorem f_TypeToString_plain {type : Type_t} (single : singleDeclarators type.Declarator.toList) :
    f_TypeToString (some type) false = type.plain.text := by
  obtain ⟨specifiers, declarator⟩ := type
  unfold f_TypeToString f_TypeStrcat Type_t.plain Plain.text Plain.strcat
  cases declarator with
  | none => rfl
  | some declarator => exact strcat_declarator _ declarator single.1

end SourceNavigator.Cpp.Types
