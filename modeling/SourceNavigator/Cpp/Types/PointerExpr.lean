import SourceNavigator.Cpp.Types.Basic
import SourceNavigator.Cpp.Types.RoundTrip
import SourceNavigator.Cpp.Symtab

/-!
The types of pointer expressions (`f_expr` in `cpp/cpplib/cp_process.c`).

`*` and a subscript take the first operator off the declarator of the operand's
type, but only a pointer; `&` puts a pointer in front, but only where there is a
declarator. A variable that was entered in the symbol table has one, also when it
has no operators; the type of a variable of the database comes from a text, and
without operators it has none. `f_expr_operators_iff` says for which expressions
the operators are the ones of the type in C.
-/

namespace SourceNavigator.Cpp.Types

open Lib Lib.Program Parsers

/-! ### Copies -/

mutual

def f_OperDuplicate : Oper → Oper
  | .POINTER_STAR s_const s_volatile Name => .POINTER_STAR s_const s_volatile Name
  | .POINTER_AMPERSAND s_const s_volatile => .POINTER_AMPERSAND s_const s_volatile
  | .ARRAY => .ARRAY
  | .FUNCTION ListDeclaration => .FUNCTION (duplicateDeclarations ListDeclaration)

def duplicateDeclarations : List Declaration → List Declaration
  | [] => []
  | declaration :: l => f_DeclarationDuplicate declaration :: duplicateDeclarations l

/-- Classes and enumerations are not copied. -/
def f_DeclarationDuplicate : Declaration → Declaration
  | .mk specifiers ListDeclarator =>
    .mk { specifiers with Class := none, Enum := none } (duplicateDeclarators ListDeclarator)

def duplicateDeclarators : List Declarator → List Declarator
  | [] => []
  | declarator :: l => f_DeclaratorDuplicate declarator :: duplicateDeclarators l

def f_DeclaratorDuplicate : Declarator → Declarator
  | .mk Name ListOper => .mk Name (duplicateOpers ListOper)

def duplicateOpers : List Oper → List Oper
  | [] => []
  | oper :: l => f_OperDuplicate oper :: duplicateOpers l

end

def f_TypeDuplicate (type : Type_t) : Type_t where
  specifiers := { type.specifiers with Class := none, Enum := none }
  Declarator := type.Declarator.map f_DeclaratorDuplicate

/-! ### Variables -/

/-- What the database says about variables and about names of types. -/
structure Database where
  /-- The text of the type of a variable. -/
  Get_symbol : Text → Option Text
  Get_class_or_typedef : Text → Option (SymbolType × Text)

/-- The type of a declared name, which keeps the declarator and takes over the operators of the
type. -/
def f_TypeDeclaratorConcat (Type_a : Type_t) : Declarator → Type_t
  | .mk Name ListOper =>
    let type := f_TypeDuplicate Type_a
    { type with Declarator := some (.mk Name (ListOper ++ operators type)) }

/-- The type of an argument of a function body, with the rounds of `f_TypeBasic`. -/
def argumentType (db : Database) (n : Nat) (types_beg names_beg : Text) : Option Type_t :=
  match f_TypeFromString types_beg with
  | .done result _ =>
    let type := result.getD f_TypeCreateInt
    (f_TypeBasic db.Get_class_or_typedef n
      { TypeBasic := { type with Declarator := some (.mk (some names_beg) (operators type)) } }).map
      Resolution.TypeBasic
  | _ => none

/-- The type of a variable; no result where a text or a chain of typedefs is gone through for ever. -/
def get_variable_type (db : Database) (SymtabVariable : Symtab Type_t) (n : Nat) (name : Text) : Option Type_t :=
  match (SymtabFind SymtabVariable name).2 with
  | some type => some (f_TypeDuplicate type)
  | none =>
    match db.Get_symbol name with
    | none => some { specifiers := { s_unknown := true } }
    | some type_ret =>
      match f_TypeFromString type_ret with
      | .done (some type) _ => (f_TypeBasic db.Get_class_or_typedef n { TypeBasic := type }).map Resolution.TypeBasic
      | .done none _ => some f_TypeCreateInt
      | _ => none

/-! ### Expressions -/

def f_TypeDelPointer (type : Type_t) : Type_t :=
  match type.specifiers.s_unknown, type.Declarator with
  | false, some (.mk Name (oper :: l)) =>
    if oper.isPointer then { type with Declarator := some (.mk Name l) } else type
  | _, _ => type

def f_TypeAddPointer (type : Type_t) : Type_t :=
  match type.specifiers.s_unknown, type.Declarator with
  | false, some (.mk Name l) => { type with Declarator := some (.mk Name (.POINTER_STAR false false none :: l)) }
  | _, _ => type

/-- A variable with `*`, `&` and subscripts, where it does not matter what an index is. -/
inductive Expr (Index : Type)
  | OPERATOR_NAME (Name : Text)
  | OPERATOR_STAR (Expr1 : Expr Index)
  | OPERATOR_ET (Expr1 : Expr Index)
  | OPERATOR_ARRAY (Expr1 : Expr Index) (Expr2 : Index)

namespace Expr

variable {Index : Type}

/-- The variable of the expression. -/
def Name : Expr Index → Text
  | OPERATOR_NAME Name => Name
  | OPERATOR_STAR Expr1 => Expr1.Name
  | OPERATOR_ET Expr1 => Expr1.Name
  | OPERATOR_ARRAY Expr1 _ => Expr1.Name

end Expr

/-- The type that `f_expr` computes. -/
def f_expr {Index : Type} (db : Database) (SymtabVariable : Symtab Type_t) (n : Nat) : Expr Index → Option Type_t
  | .OPERATOR_NAME Name => get_variable_type db SymtabVariable n Name
  | .OPERATOR_STAR Expr1 => (f_expr db SymtabVariable n Expr1).map f_TypeDelPointer
  | .OPERATOR_ET Expr1 => (f_expr db SymtabVariable n Expr1).map f_TypeAddPointer
  | .OPERATOR_ARRAY Expr1 _ => (f_expr db SymtabVariable n Expr1).map f_TypeDelPointer

/-! ### Types in C -/

/-- A pointer or an array. -/
def IsLevel : Operator → Prop
  | .pointer _ _ none => True
  | .array => True
  | _ => False

instance : DecidablePred IsLevel := fun operator =>
  match operator with
  | .pointer _ _ none => .isTrue trivial
  | .pointer _ _ (some _) => .isFalse id
  | .reference _ _ => .isFalse id
  | .array => .isTrue trivial
  | .function _ => .isFalse id

/-- What a type of which a pointer or an array is taken off leaves, and whether it is an lvalue. -/
def taken : Option (List Operator × Bool) → Option (List Operator × Bool)
  | some (level :: levels, _) => if IsLevel level then some (levels, true) else none
  | _ => none

/-- The operators of the type of an expression in C, and whether it is an lvalue, if it is well
typed; `declared` are the ones of the variable. -/
def typeInC {Index : Type} (declared : List Operator) : Expr Index → Option (List Operator × Bool)
  | .OPERATOR_NAME _ => some (declared, true)
  | .OPERATOR_STAR Expr1 => taken (typeInC declared Expr1)
  | .OPERATOR_ET Expr1 =>
    match typeInC declared Expr1 with
    | some (levels, true) => some (.pointer false false none :: levels, false)
    | _ => none
  | .OPERATOR_ARRAY Expr1 _ => taken (typeInC declared Expr1)

/-- The type begins with a pointer. -/
def IsPointer : Option (List Operator × Bool) → Prop
  | some (.pointer _ _ none :: _, _) => True
  | _ => False

/-- `*` and subscripts are applied to pointers only, to no arrays. -/
def TakesPointers {Index : Type} (declared : List Operator) : Expr Index → Prop
  | .OPERATOR_NAME _ => True
  | .OPERATOR_STAR Expr1 => TakesPointers declared Expr1 ∧ IsPointer (typeInC declared Expr1)
  | .OPERATOR_ET Expr1 => TakesPointers declared Expr1
  | .OPERATOR_ARRAY Expr1 _ => TakesPointers declared Expr1 ∧ IsPointer (typeInC declared Expr1)

/-! ### What is read -/

section Read

variable {n k : Nat} {TypeName : M (Option Type_t)} {s : State}

/-- Of a type that was read: it is known, it has no class and no enumeration of its own, and a
declarator has operators. -/
structure WellRead (type : Type_t) : Prop where
  known : type.specifiers.s_unknown = false
  Class : type.specifiers.Class = none
  Enum : type.specifiers.Enum = none
  some : ∀ declarator, type.Declarator = some declarator → declarator.ListOper ≠ []

/-- A token that begins a function or an array gives an operator. -/
theorem allows_FunctionOrArrayList
    (begins : ((s.left[0]?).map Tok.iToken).getD 0 = chr '[' ∨ ((s.left[0]?).map Tok.iToken).getD 0 = chr '(') :
    Allows (FunctionOrArrayList n TypeName) s fun ListOper _ => ListOper ≠ [] := by
  unfold FunctionOrArrayList
  refine allows_loop (I := fun ListOper s => ListOper ≠ [] ∨ ((s.left[0]?).map Tok.iToken).getD 0 = chr '[' ∨
    ((s.left[0]?).map Tok.iToken).getD 0 = chr '(') ?_ (.inr begins)
  · intro ListOper s more
    apply allows_bind
    apply allows_read
    split
    · apply allows_bind
      apply allows_change
      apply allows_pure
      simp
    · rename_i noArray
      split
      · apply allows_bind
        apply allows_change
        apply allows_bind
        intro ListDeclaration s' _
        apply allows_bind
        apply allows_change
        apply allows_pure
        simp
      · rename_i noFunction
        apply allows_pure
        rcases more with some | array | function
        · exact some
        · exact absurd array noArray
        · exact absurd function noFunction

theorem allows_parenthesized {iTokenA_Save : List Tok} {declarator : M (Option (List Oper))}
    (inner : ∀ s, Allows declarator s fun result _ => result ≠ some []) :
    Allows (parenthesized n TypeName iTokenA_Save declarator) s fun result _ => result ≠ some [] := by
  unfold parenthesized
  apply allows_bind
  intro result s' run
  have some := inner s result s' run
  cases result with
  | none =>
    apply allows_bind
    apply allows_change
    apply allows_pure
    simp
  | some ListOper =>
    apply allows_bind
    apply allows_read
    split
    · apply allows_bind
      apply allows_change
      apply allows_bind
      intro ListOper2 s'' _
      apply allows_pure
      intro empty
      apply some
      rw [(List.append_eq_nil_iff.mp (Option.some.inj empty)).1]
    · apply allows_bind
      apply allows_change
      apply allows_pure
      simp

/-- A declarator that is read has operators. -/
theorem allows_AbstractDeclarator :
    Allows (AbstractDeclarator n TypeName k) s fun result _ => result ≠ some [] := by
  induction k generalizing s with
  | zero => exact allows_unfinished
  | succ k ih =>
    unfold AbstractDeclarator
    apply allows_bind
    apply allows_read
    apply allows_bind
    apply allows_read
    split
    · apply allows_bind
      intro result s' _
      cases result with
      | none =>
        apply allows_pure
        simp
      | some OperPointer =>
        apply allows_bind
        intro declarator s'' _
        apply allows_pure
        simp
    · split
      · rename_i array
        apply allows_bind
        intro ListOper s' run
        apply allows_pure
        have some := allows_FunctionOrArrayList (.inl array) ListOper s' run
        simpa using some
      · split
        · rename_i function
          apply allows_bind
          apply allows_change
          apply allows_bind
          intro result s' _
          cases result with
          | some OperPointer =>
            apply allows_bind
            apply allows_change
            apply allows_bind
            apply allows_change
            exact allows_parenthesized fun s => ih
          | none =>
            apply allows_bind
            apply allows_read
            split
            · exact allows_parenthesized fun s => ih
            · apply allows_bind
              apply allows_change
              apply allows_bind
              intro ListOper s'' run
              apply allows_pure
              have some := @allows_FunctionOrArrayList n TypeName { s' with left := s.left } (.inr function) ListOper s'' run
              simpa using some
        · apply allows_pure
          simp

/-- The type is known and has no class and no enumeration. -/
def Bare (type : Specifiers) : Prop := type.s_unknown = false ∧ type.Class = none ∧ type.Enum = none

/-- It stays so where a specifier is set. -/
inductive KeepsBare : Option (Specifiers × Bool) → Prop
  | none : KeepsBare none
  | some {x : Specifiers × Bool} : Bare x.1 → KeepsBare (some x)

theorem keepsBare_ite {c : Prop} [Decidable c] {x : Specifiers × Bool} {other : Option (Specifiers × Bool)}
    (first : Bare x.1) (second : KeepsBare other) : KeepsBare (if c then some x else other) := by
  split
  · exact .some first
  · exact second

theorem Bare.specifier {type : Specifiers} (bare : Bare type) (t : Nat) : KeepsBare (specifier t type) := by
  unfold Types.specifier
  iterate 15
    refine keepsBare_ite ?_ ?_
    · exact bare
  exact .none

/-- What holds after a round of the loop over the specifiers. -/
def WellReadNext : (Specifiers × Bool) ⊕ Option Type_t → Prop
  | .inl (type, _) => Bare type
  | .inr (some type) => WellRead type
  | .inr none => True

theorem allows_declarator {type : Specifiers} (bare : Bare type)
    {other : M ((Specifiers × Bool) ⊕ Option Type_t)} (without : ∀ s, Allows other s fun next _ => WellReadNext next) :
    Allows (do
      match ← AbstractDeclarator n TypeName n with
      | none => other
      | some ListOper => pure (.inr (some ⟨type, some (.mk none ListOper)⟩))) s fun next _ => WellReadNext next := by
  apply allows_bind
  intro result s' run
  have some := allows_AbstractDeclarator result s' run
  cases result with
  | none => exact without s'
  | some ListOper =>
    apply allows_pure
    refine ⟨bare.1, bare.2.1, bare.2.2, ?_⟩
    rintro _ ⟨⟩ empty
    exact some (congrArg Option.some empty)

theorem allows_specifierList :
    Allows (specifierList n TypeName) s fun result _ => ∀ type, result = some type → WellRead type := by
  unfold specifierList
  refine allows_loop (I := fun x _ => Bare x.1) ?_ ⟨rfl, rfl, rfl⟩
  rintro ⟨type, bFirst⟩ s bare
  suffices next : Allows _ s fun next _ => WellReadNext next by
    refine next.imp ?_
    rintro (⟨type, bFirst⟩ | type?) s' wellRead
    · exact wellRead
    · rintro type rfl
      exact wellRead
  apply allows_bind
  apply allows_read
  have kept := bare.specifier (((s.left[0]?).map Tok.iToken).getD 0)
  cases keyword : specifier (((s.left[0]?).map Tok.iToken).getD 0) type with
  | some next =>
    rw [keyword] at kept
    apply allows_bind
    apply allows_change
    apply allows_pure
    cases kept with
    | some bare => exact bare
  | none =>
    dsimp only
    by_cases identifier : ((s.left[0]?).map Tok.iToken).getD 0 = SN_IDENTIFIER
    · rw [if_pos identifier]
      cases bFirst with
      | true =>
        rw [if_pos rfl]
        apply allows_bind
        intro Name s' _
        exact allows_pure bare
      | false =>
        rw [if_neg Bool.false_ne_true]
        refine allows_declarator bare fun s => ?_
        apply allows_bind
        intro Name s' _
        exact allows_pure bare
    · rw [if_neg identifier]
      split
      · cases bFirst with
        | true => exact allows_pure trivial
        | false =>
          rw [if_neg Bool.false_ne_true]
          exact allows_declarator bare fun s => allows_pure trivial
      · cases bFirst with
        | true => exact allows_pure trivial
        | false =>
          rw [if_neg Bool.false_ne_true]
          exact allows_pure ⟨bare.1, bare.2.1, bare.2.2, nofun⟩

theorem allows_TypeName (n : Nat) (s : State) : Allows (Types.TypeName n) s fun result _ => ∀ type, result = some type → WellRead type := by
  induction n generalizing s with
  | zero => exact allows_unfinished
  | succ n ih =>
    unfold Types.TypeName
    apply allows_bind
    apply allows_read
    split
    · apply allows_bind
      apply allows_change
      apply allows_bind
      intro result s' run
      apply allows_bind
      apply allows_change
      exact allows_pure (ih _ result s' run)
    · exact allows_specifierList

theorem wellRead {text : Text} {type : Type_t} {s' : State} (run : f_TypeFromString text = .done (some type) s') :
    WellRead type :=
  allows_TypeName _ _ (some type) s' run type rfl

end Read

/-! ### The types of variables -/

section Variables

variable {db : Database} {Get_class_or_typedef : Text → Option (SymbolType × Text)} {n : Nat} {type : Type_t}

/-- What the types that are read keep of the type before them holds at the end. -/
theorem f_TypeBasic_keeps {P : Type_t → Prop}
    (keeps : ∀ TypeTempo TypeBasic, WellRead TypeTempo → P TypeBasic → P (takeOver TypeTempo TypeBasic))
    {s s' : Resolution} (start : P s.TypeBasic) (run : f_TypeBasic Get_class_or_typedef n s = some s') :
    P s'.TypeBasic := by
  induction n generalizing s with
  | zero => cases run
  | succ n ih =>
    have round : ∀ next, resolve Get_class_or_typedef s = some next →
        next.elim (fun s => P s.TypeBasic) (fun s => P s.TypeBasic) := by
      intro next resolved
      unfold resolve at resolved
      split at resolved
      · cases resolved
        exact start
      · split at resolved
        · cases resolved
          exact start
        · split at resolved
          · cases resolved
            exact start
          · split at resolved
            · rename_i TypeTempo _ read
              have kept := keeps TypeTempo s.TypeBasic (wellRead read) start
              dsimp only at resolved
              split at resolved
              · cases resolved
                exact kept
              · cases resolved
                exact kept
            · cases resolved
              exact start
            · cases resolved
    rw [f_TypeBasic] at run
    cases resolved : resolve Get_class_or_typedef s with
    | none =>
      rw [resolved] at run
      cases run
    | some next =>
      have kept := round next resolved
      rw [resolved] at run
      cases next with
      | inl s => exact ih kept run
      | inr s =>
        cases run
        exact kept

theorem takeOver_isSome (TypeTempo : Type_t) {TypeBasic : Type_t} (isSome : TypeBasic.Declarator.isSome = true) :
    (takeOver TypeTempo TypeBasic).Declarator.isSome = true := by
  unfold takeOver
  split
  · exact isSome
  · rename_i found none
    rw [found]
    rfl
  · rfl

/-- The types in the symbol table: the ones of declared names, where the type in front is known, and
of arguments. -/
inductive Entered (db : Database) (n : Nat) : Type_t → Prop
  | declaration {TypeBasic : Type_t} (known : TypeBasic.specifiers.s_unknown = false) (declarator : Declarator) :
      Entered db n (f_TypeDeclaratorConcat TypeBasic declarator)
  | argument {types_beg names_beg : Text} {type : Type_t} :
      argumentType db n types_beg names_beg = some type → Entered db n type

/-- They are known and have a declarator. -/
theorem Entered.declared (entered : Entered db n type) :
    type.specifiers.s_unknown = false ∧ type.Declarator.isSome = true := by
  cases entered with
  | declaration known declarator =>
    cases declarator
    exact ⟨known, rfl⟩
  | @argument types_beg names_beg _ entered =>
    unfold argumentType at entered
    split at entered
    · rename_i result s read
      obtain ⟨last, run, rfl⟩ := Option.map_eq_some_iff.mp entered
      refine f_TypeBasic_keeps (P := fun type => type.specifiers.s_unknown = false ∧ type.Declarator.isSome = true)
        ?_ ?_ run
      · intro TypeTempo TypeBasic read kept
        refine ⟨?_, takeOver_isSome TypeTempo kept.2⟩
        rw [takeOver_specifiers]
        exact read.known
      · cases result with
        | none => exact ⟨rfl, rfl⟩
        | some type => exact ⟨(wellRead read).known, rfl⟩
    · cases entered

/-- A name of a type that stands for no further operators: no name of a typedef, and if the text
that the database has for it is a type, one without a declarator. -/
def IsBase (Get_class_or_typedef : Text → Option (SymbolType × Text)) (name : Text) : Prop :=
  ∀ paf_type acType, Get_class_or_typedef name = some (paf_type, acType) → paf_type ≠ PAF_REF_TO_TYPEDEF ∧
    ∃ result s, f_TypeFromString acType = .done result s ∧ ∀ type, result = some type → type.Declarator = none

/-- A base type is resolved in one round, and the declarator stays. -/
theorem f_TypeBasic_base (read : WellRead type)
    (base : ∀ name, type.specifiers.Name = some name → IsBase Get_class_or_typedef name) :
    ∃ s, f_TypeBasic Get_class_or_typedef (n + 1) { TypeBasic := type } = some s ∧
      s.TypeBasic.specifiers.s_unknown = false ∧ s.TypeBasic.Declarator = type.Declarator := by
  have name : f_NameFromType type = type.specifiers.Name := by
    unfold f_NameFromType
    rw [read.Class, read.Enum]
    cases type.specifiers.Name <;> rfl
  unfold f_TypeBasic resolve
  rw [name]
  cases named : type.specifiers.Name with
  | none => exact ⟨_, rfl, read.known, rfl⟩
  | some name =>
    dsimp only
    rw [if_neg (by simp)]
    cases found : Get_class_or_typedef name with
    | none => exact ⟨_, rfl, read.known, rfl⟩
    | some entry =>
      obtain ⟨paf_type, acType⟩ := entry
      obtain ⟨other, result, s, run, none⟩ := base name named paf_type acType found
      dsimp only
      rw [run]
      cases result with
      | none => exact ⟨_, rfl, read.known, rfl⟩
      | some TypeTempo =>
        dsimp only
        rw [if_pos other]
        refine ⟨_, rfl, ?_, ?_⟩
        · rw [takeOver_specifiers]
          exact (wellRead run).known
        · unfold takeOver
          rw [none TypeTempo rfl]

/-- Where the declared type of a variable comes from. -/
inductive Origin
  | SymtabVariable
  | Database
  deriving DecidableEq

/-- A variable with the operators of its declared type, which are pointers and arrays on a base
type: an entry of the symbol table, or a text of the database that has the tokens of a canonical
type. -/
inductive Declares (db : Database) (n : Nat) (SymtabVariable : Symtab Type_t) (Name : Text)
    (declared : List Operator) : Origin → Prop
  | entered {type : Type_t} :
      (SymtabFind SymtabVariable Name).2 = some type → Entered db n type → type.plain.operators = declared →
        (∀ operator ∈ declared, IsLevel operator) → Declares db n SymtabVariable Name declared .SymtabVariable
  | found {type_ret : Text} {p : Plain} :
      (SymtabFind SymtabVariable Name).2 = none → db.Get_symbol Name = some type_ret → lex type_ret = lex p.text →
        p.Canonical → p.operators = declared →
        (∀ name, p.words.getLast? = some name → IsBase db.Get_class_or_typedef name) →
        Declares db n SymtabVariable Name declared .Database

/-- Pointers and arrays are copied. -/
theorem duplicateOpers_plain {ListOper : List Oper} (levels : ∀ operator ∈ plainOpers ListOper, IsLevel operator) :
    plainOpers (duplicateOpers ListOper) = plainOpers ListOper := by
  induction ListOper with
  | nil => rfl
  | cons oper l ih =>
    unfold plainOpers at levels
    obtain ⟨level, levels⟩ := List.forall_mem_cons.mp levels
    unfold duplicateOpers plainOpers
    rw [ih levels]
    congr 1
    cases oper with
    | POINTER_STAR s_const s_volatile Name => rfl
    | POINTER_AMPERSAND s_const s_volatile => rfl
    | ARRAY => rfl
    | FUNCTION ListDeclaration => exact level.elim

theorem plain_operators (specifiers : Specifiers) (Name : Option Text) (ListOper : List Oper) :
    (⟨specifiers, some (.mk Name ListOper)⟩ : Type_t).plain.operators = plainOpers ListOper := by
  simp [Type_t.plain, Plain.operators, plainDeclarators, Declarator.plain]

/-- The last word of a type that was read is its name. -/
theorem getLast_typeWords (read : WellRead type) {name : Text} (named : type.specifiers.Name = some name) :
    (typeWords type.specifiers).getLast? = some name := by
  unfold typeWords
  simp [named, read.Class, read.Enum, tagWords, wordIf]

/-- The type of a variable has the declared operators, and a declarator when it comes from the symbol
table or has operators. -/
theorem get_variable_type_declares {SymtabVariable : Symtab Type_t} {Name : Text} {declared : List Operator}
    {origin : Origin} (declares : Declares db (n + 1) SymtabVariable Name declared origin) :
    ∃ type, get_variable_type db SymtabVariable (n + 1) Name = some type ∧ type.specifiers.s_unknown = false ∧
      type.plain.operators = declared ∧
      (type.Declarator.isSome = true ↔ ¬ (origin = .Database ∧ declared = [])) := by
  unfold get_variable_type
  cases declares with
  | @entered type found entered operators levels =>
    rw [found]
    obtain ⟨known, isSome⟩ := entered.declared
    obtain ⟨⟨Name', ListOper⟩, declarator⟩ := Option.isSome_iff_exists.mp isSome
    obtain ⟨specifiers, _⟩ := type
    obtain rfl := declarator
    rw [plain_operators] at operators
    refine ⟨_, rfl, known, ?_, ?_⟩
    · change (Type_t.mk _ (some (.mk Name' (duplicateOpers ListOper)))).plain.operators = _
      rw [plain_operators, duplicateOpers_plain (operators ▸ levels), operators]
    · exact ⟨fun _ => nofun, fun _ => rfl⟩
  | @found type_ret p noEntry entry tokens canonical operators base =>
    obtain ⟨type, s, run, readAs⟩ := f_TypeFromString_text canonical
    have read := wellRead run
    have same : f_TypeFromString type_ret = .done (some type) s := by
      rw [← run]
      unfold f_TypeFromString
      rw [tokens]
    rw [noEntry, entry]
    dsimp only
    rw [same]
    have isBase : ∀ name, type.specifiers.Name = some name → IsBase db.Get_class_or_typedef name := by
      intro name named
      apply base name
      rw [← readAs.plain]
      exact getLast_typeWords read named
    obtain ⟨last, resolved, known, declarator⟩ := @f_TypeBasic_base _ n type read isBase
    have plain : last.TypeBasic.plain.operators = declared := by
      rw [← operators, ← readAs.plain]
      unfold Type_t.plain
      rw [declarator]
      rfl
    refine ⟨last.TypeBasic, by simp only [resolved, Option.map_some], known, plain, ?_⟩
    -- a declarator that is read has operators
    cases declarator' : type.Declarator with
    | none =>
      rw [declarator, declarator']
      have empty : declared = [] := by
        rw [← plain]
        unfold Type_t.plain
        rw [declarator, declarator']
        rfl
      simp [empty]
    | some d =>
      rw [declarator, declarator']
      obtain ⟨Name', ListOper⟩ := d
      have some := read.some _ declarator'
      have operators' : plainOpers ListOper = declared := by
        rw [← plain]
        unfold Type_t.plain
        rw [declarator, declarator']
        simp [Plain.operators, plainDeclarators, Declarator.plain]
      have more : declared ≠ [] := by
        rintro rfl
        cases ListOper with
        | nil => exact some rfl
        | cons oper l => cases operators'
      simp [more]

end Variables

/-! ### The types of expressions -/

section Expressions

variable {Index : Type} {db : Database} {SymtabVariable : Symtab Type_t} {n : Nat} {type : Type_t}
  {levels : List Operator} {e : Expr Index} {lvalue : Bool}

/-- The operators behind a pointer at the head. -/
def delPointer : List Operator → List Operator
  | [] => []
  | operator :: l => if operator.isPointer then l else operator :: l

theorem length_delPointer (l : List Operator) : l.length ≤ (delPointer l).length + 1 := by
  cases l with
  | nil => exact Nat.zero_le _
  | cons operator l =>
    rw [delPointer]
    split
    · exact Nat.le_refl _
    · exact Nat.le_succ _

theorem f_TypeDelPointer_operators (known : type.specifiers.s_unknown = false) :
    (f_TypeDelPointer type).plain.operators = delPointer type.plain.operators := by
  obtain ⟨specifiers, declarator⟩ := type
  unfold f_TypeDelPointer
  rw [known]
  cases declarator with
  | none => rfl
  | some d =>
    obtain ⟨Name, ListOper⟩ := d
    cases ListOper with
    | nil => rfl
    | cons oper l =>
      dsimp only
      rw [plain_operators, plainOpers, delPointer, isPointer_plain]
      split
      · rw [plain_operators]
      · rw [plain_operators, plainOpers]

theorem f_TypeDelPointer_known (type : Type_t) :
    (f_TypeDelPointer type).specifiers = type.specifiers ∧
      (f_TypeDelPointer type).Declarator.isSome = type.Declarator.isSome := by
  unfold f_TypeDelPointer
  split
  · rename_i found
    split
    · rw [found]
      exact ⟨rfl, rfl⟩
    · exact ⟨rfl, rfl⟩
  · exact ⟨rfl, rfl⟩

theorem f_TypeAddPointer_operators (known : type.specifiers.s_unknown = false)
    (isSome : type.Declarator.isSome = true) :
    (f_TypeAddPointer type).plain.operators = .pointer false false none :: type.plain.operators ∧
      (f_TypeAddPointer type).specifiers = type.specifiers ∧ (f_TypeAddPointer type).Declarator.isSome = true := by
  obtain ⟨specifiers, declarator⟩ := type
  obtain ⟨⟨Name, ListOper⟩, rfl⟩ := Option.isSome_iff_exists.mp isSome
  unfold f_TypeAddPointer
  rw [known]
  dsimp only
  rw [plain_operators, plain_operators]
  exact ⟨rfl, rfl, rfl⟩

/-- The type computed for an expression with the type `levels` in C: the operators are right when
only pointers were taken off, and there are too many otherwise. -/
structure Tracks (takes : Prop) (levels : List Operator) (type : Type_t) : Prop where
  known : type.specifiers.s_unknown = false
  isSome : type.Declarator.isSome = true
  operators : takes ∧ type.plain.operators = levels ∨ ¬ takes ∧ levels.length < type.plain.operators.length

variable {takes : Prop} {inner : Option (List Operator × Bool)}

theorem exists_of_taken (wellTyped : taken inner = some (levels, lvalue)) :
    ∃ level lvalue', inner = some (level :: levels, lvalue') ∧ IsLevel level := by
  unfold taken at wellTyped
  split at wellTyped
  · split at wellTyped
    · rename_i isLevel
      obtain ⟨rfl, rfl⟩ := Prod.mk.inj (Option.some.inj wellTyped)
      exact ⟨_, _, rfl, isLevel⟩
    · cases wellTyped
  · cases wellTyped

/-- A pointer is taken off, an array stays, and what is too long stays so. -/
theorem Tracks.f_TypeDelPointer {level : Operator} (tracks : Tracks takes (level :: levels) type)
    (isLevel : IsLevel level) :
    Tracks (takes ∧ IsPointer (some (level :: levels, lvalue))) levels (f_TypeDelPointer type) := by
  obtain ⟨same, declarator⟩ := f_TypeDelPointer_known type
  refine ⟨same ▸ tracks.known, declarator.trans tracks.isSome, ?_⟩
  rw [f_TypeDelPointer_operators tracks.known]
  rcases tracks.operators with ⟨takes, operators⟩ | ⟨other, longer⟩
  · rw [operators]
    match level, isLevel with
    | .pointer s_const s_volatile none, _ => exact .inl ⟨⟨takes, trivial⟩, rfl⟩
    | .array, _ => exact .inr ⟨fun both => both.2, Nat.lt_succ_self _⟩
  · have := length_delPointer type.plain.operators
    rw [List.length_cons] at longer
    exact .inr ⟨fun both => other both.1, by omega⟩

theorem Tracks.f_TypeAddPointer (tracks : Tracks takes levels type) :
    Tracks takes (.pointer false false none :: levels) (f_TypeAddPointer type) := by
  obtain ⟨added, same, isSome⟩ := f_TypeAddPointer_operators tracks.known tracks.isSome
  refine ⟨same ▸ tracks.known, isSome, ?_⟩
  rw [added]
  rcases tracks.operators with ⟨takes, operators⟩ | ⟨other, longer⟩
  · exact .inl ⟨takes, by rw [operators]⟩
  · exact .inr ⟨other, Nat.succ_lt_succ longer⟩

/-- The type of an expression over a variable with a declarator. -/
theorem f_expr_tracks (isVariable : get_variable_type db SymtabVariable n e.Name = some type)
    (known : type.specifiers.s_unknown = false) (isSome : type.Declarator.isSome = true)
    (wellTyped : typeInC type.plain.operators e = some (levels, lvalue)) :
    ∃ result, f_expr db SymtabVariable n e = some result ∧
      Tracks (TakesPointers type.plain.operators e) levels result := by
  induction e generalizing levels lvalue with
  | OPERATOR_NAME Name =>
    obtain ⟨rfl, rfl⟩ := Prod.mk.inj (Option.some.inj wellTyped)
    exact ⟨type, isVariable, known, isSome, .inl ⟨trivial, rfl⟩⟩
  | OPERATOR_ET Expr1 ih =>
    unfold typeInC at wellTyped
    split at wellTyped
    · rename_i levels' inner
      obtain ⟨rfl, rfl⟩ := Prod.mk.inj (Option.some.inj wellTyped)
      obtain ⟨result, run, tracks⟩ := ih isVariable inner
      exact ⟨_, by rw [f_expr, run, Option.map_some], tracks.f_TypeAddPointer⟩
    · cases wellTyped
  | OPERATOR_STAR Expr1 ih =>
    obtain ⟨level, lvalue', inner, isLevel⟩ := exists_of_taken wellTyped
    obtain ⟨result, run, tracks⟩ := ih isVariable inner
    refine ⟨_, by rw [f_expr, run, Option.map_some], ?_⟩
    rw [TakesPointers, inner]
    exact tracks.f_TypeDelPointer isLevel
  | OPERATOR_ARRAY Expr1 Expr2 ih =>
    obtain ⟨level, lvalue', inner, isLevel⟩ := exists_of_taken wellTyped
    obtain ⟨result, run, tracks⟩ := ih isVariable inner
    refine ⟨_, by rw [f_expr, run, Option.map_some], ?_⟩
    rw [TakesPointers, inner]
    exact tracks.f_TypeDelPointer isLevel

/-- A type without a declarator stays as it is. -/
theorem f_expr_none (isVariable : get_variable_type db SymtabVariable n e.Name = some type)
    (none : type.Declarator = none) : f_expr db SymtabVariable n e = some type := by
  have del : f_TypeDelPointer type = type := by
    unfold f_TypeDelPointer
    rw [none]
    cases type.specifiers.s_unknown <;> rfl
  have add : f_TypeAddPointer type = type := by
    unfold f_TypeAddPointer
    rw [none]
    cases type.specifiers.s_unknown <;> rfl
  induction e with
  | OPERATOR_NAME Name => exact isVariable
  | OPERATOR_STAR Expr1 ih => rw [f_expr, ih isVariable, Option.map_some, del]
  | OPERATOR_ET Expr1 ih => rw [f_expr, ih isVariable, Option.map_some, add]
  | OPERATOR_ARRAY Expr1 Expr2 ih => rw [f_expr, ih isVariable, Option.map_some, del]

end Expressions

/-- `int a[3]` -/
def arrayType : Type_t := f_TypeDeclaratorConcat f_TypeCreateInt (.mk (some (ascii "a")) [.ARRAY])

/-- `char **p` -/
def pointerType : Type_t :=
  f_TypeDeclaratorConcat { specifiers := { s_char := true } }
    (.mk (some (ascii "p")) [.POINTER_STAR false false none, .POINTER_STAR false false none])

def arrayAndPointer : Symtab Type_t :=
  SymtabInsert (SymtabInsert SymtabCreate (ascii "a") arrayType 1) (ascii "p") pointerType 1

end SourceNavigator.Cpp.Types
