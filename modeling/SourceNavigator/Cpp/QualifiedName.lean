import SourceNavigator.Cpp.Token

/-!
Qualified names in the first pass of the C++ parser (`cpp/cparser.c`).

A function of the parser takes the tokens that are left and returns whether it
succeeded, the text it appended to the string it was given, and the tokens that
are left then; a function that fails goes back to the first token. `f_class` and
`f_enum`, which read a whole class or enumeration, are parameters.

The text of a name is cut at its last colon to get the name and the scope that
are reported (`get_name`, `get_scope`).
-/

namespace SourceNavigator.Cpp.Names

/-! ### Reading names -/

/-- What a function returns: success, the text it appended and the tokens left. -/
abbrev Parsed := Bool × Text × List StackEntry

/-- `isalnum( c ) || c == '_' || c == '$'`, which needs a blank between two tokens. -/
def isWordChar (c : UInt8) : Bool :=
  (48 ≤ c && c ≤ 57) || (65 ≤ c && c ≤ 90) || (97 ≤ c && c ≤ 122) || c == 95 || c == 36

/-- A token is appended to the arguments, with a blank between two words. -/
def appendToken (bFirst : Bool) (buf : Text) (t : StackEntry) : Text :=
  let blank :=
    if !bFirst && (buf.getLast?.map isWordChar).getD false &&
        (t.ident.head?.map isWordChar).getD false then ascii " "
    else []
  buf ++ blank ++ t.ident

/-- The loop of `template_argument_skip`: the depth, whether no argument token was there yet, and
the text so far. -/
def templateLoop (depth : Nat) (bFirst : Bool) (buf : Text) : List StackEntry → Text × List StackEntry
  | [] => (buf, [])
  | t :: ts =>
    if t.token = 0 then (buf, t :: ts)
    else
      let depth :=
        if t.token = chr '<' then depth + 1 else if t.token = chr '>' then depth - 1 else depth
      if depth = 0 then (buf ++ ascii ">", ts)
      else templateLoop depth false (appendToken bFirst buf t) ts

/-- From the opening bracket on. -/
def template_argument_skip (ts : List StackEntry) : Text × List StackEntry :=
  templateLoop 1 true (ascii "<") (ts.drop 1)

def qualified_class_name_x : Nat → List StackEntry → Text × List StackEntry
  | 0, ts => ([], ts)
  | n + 1, ts =>
    let (args, rest) :=
      if token ts 1 = chr '<' then template_argument_skip (ts.drop 1) else ([], ts.drop 1)
    if token rest 0 = SN_CLCL ∧ token rest 1 = SN_IDENTIFIER then
      let (text, rest) := qualified_class_name_x n (rest.drop 1)
      (ident ts 0 ++ args ++ ascii "::" ++ text, rest)
    else (ident ts 0 ++ args, rest)

def qualified_class_name (ts : List StackEntry) : Text × List StackEntry :=
  qualified_class_name_x (ts.length + 1) ts

def complete_class_name (ts : List StackEntry) : Parsed :=
  if token ts 0 = SN_CLCL then
    if token ts 1 = SN_IDENTIFIER then
      let (text, rest) := qualified_class_name (ts.drop 1)
      (true, ascii "::" ++ text, rest)
    else (false, ascii "::", ts)
  else if token ts 0 = SN_IDENTIFIER then (true, qualified_class_name ts)
  else (false, [], ts)

/-- `const` and `volatile` in any order. -/
def cv_qualifier_list_opt (ts : List StackEntry) : Text × List StackEntry :=
  let cv := ts.takeWhile fun t => t.token = SN_CONST || t.token = SN_VOLATILE
  let text :=
    (if cv.any fun t => t.token = SN_CONST then ascii "const " else []) ++
      if cv.any fun t => t.token = SN_VOLATILE then ascii "volatile " else []
  (text, ts.drop cv.length)

def ptr_operator (ts : List StackEntry) : Parsed :=
  if token ts 0 = chr '*' ∨ token ts 0 = chr '&' then
    let (cv, rest) := cv_qualifier_list_opt (ts.drop 1)
    (true, ident ts 0 ++ cv, rest)
  else if token ts 0 = SN_IDENTIFIER ∨ token ts 0 = SN_CLCL then
    match complete_class_name ts with
    | (true, text, rest) =>
      if token rest 0 = SN_CLCL ∧ token rest 1 = chr '*' then
        let (cv, rest) := cv_qualifier_list_opt (rest.drop 2)
        (true, text ++ ascii "::*" ++ cv, rest)
      else if token rest 0 = chr '*' then
        let (cv, rest) := cv_qualifier_list_opt (rest.drop 1)
        (true, text ++ ascii " *" ++ cv, rest)
      else (false, text, ts)
    | (false, text, _) => (false, text, ts)
  else (false, [], ts)

/-- The functions that read a class and an enumeration after its keyword: the tokens left when they
succeed. -/
structure Specifiers where
  f_class : List StackEntry → Option (List StackEntry)
  f_enum : List StackEntry → Option (List StackEntry)

/-- The keywords that are appended as they are. -/
def simpleSpecifiers : List Nat :=
  [SN_AUTO, SN_REGISTER, SN_STATIC, SN_EXTERN, SN_INLINE, SN_VIRTUAL, SN_FRIEND, SN_TYPEDEF,
    SN_CONST, SN_VOLATILE, SN_CHAR, SN_SHORT, SN_INT, SN_LONG, SN_SIGNED, SN_UNSIGNED, SN_FLOAT,
    SN_DOUBLE, SN_BOOL, SN_VOID]

section Operators

variable (specifiers : Specifiers)

def conversion_type_specifier (ts : List StackEntry) : Parsed :=
  let t := token ts 0
  let read (text : Text) (left : Option (List StackEntry)) : Parsed :=
    match left with
    | some rest => (true, text, rest)
    | none => (false, text, ts)
  if t = SN_INTERFACE ∨ t = SN_CLASS then read (ascii "_class") (specifiers.f_class ts)
  else if t = SN_STRUCT then read (ascii "_struct") (specifiers.f_class ts)
  else if t = SN_UNION then read (ascii "_union") (specifiers.f_class ts)
  else if t = SN_ENUM then read (ascii "_enum") (specifiers.f_enum ts)
  else if t ∈ simpleSpecifiers then (true, ident ts 0, ts.drop 1)
  else if t = SN_IDENTIFIER ∨ t = SN_CLCL then
    match complete_class_name ts with
    | (true, text, rest) => (true, text, rest)
    | (false, text, _) => (false, text, ts)
  else (false, [], ts)

/-- The loop over the specifiers: the text appended, also by the last one, and the tokens left. -/
def specifierLoop : Nat → List StackEntry → Text × List StackEntry
  | 0, ts => ([], ts)
  | n + 1, ts =>
    match conversion_type_specifier specifiers ts with
    | (true, text, rest) =>
      let (more, rest) := specifierLoop n rest
      (text ++ more, rest)
    | (false, text, rest) => (text, rest)

def conversion_type_name (ts : List StackEntry) : Parsed :=
  match conversion_type_specifier specifiers ts with
  | (true, text, rest) =>
    let (more, rest) := specifierLoop specifiers (ts.length + 1) rest
    match ptr_operator rest with
    | (true, _, rest) => (true, text ++ more ++ ascii "*", rest)
    | (false, _, _) => (true, text ++ more, rest)
  | (false, text, _) => (false, text, ts)

/-- The operators of one token. -/
def operatorTexts : List (Nat × Text) :=
  [(chr '@', ascii "operator@"), (chr '+', ascii "operator+"), (chr '-', ascii "operator-"),
    (chr '*', ascii "operator*"), (chr '/', ascii "operator/"), (chr '%', ascii "operator%"),
    (chr '^', ascii "operator^"), (chr '&', ascii "operator&"), (chr '|', ascii "operator|"),
    (chr '~', ascii "operator~"), (chr '!', ascii "operator!"), (chr '<', ascii "operator<"),
    (chr '>', ascii "operator>"), (SN_LS, ascii "operator<<"), (SN_RS, ascii "operator>>"),
    (SN_ANDAND, ascii "operator&&"), (SN_OROR, ascii "operator||"), (SN_ARROW, ascii "operator->"),
    (SN_ARROWstar, ascii "operator->*"), (chr '.', ascii "operator."),
    (SN_DOTstar, ascii "operator.*"), (SN_ICR, ascii "operator++"), (SN_DECR, ascii "operator--"),
    (SN_LE, ascii "operator<="), (SN_GE, ascii "operator>="), (SN_EQ, ascii "operator=="),
    (SN_NE, ascii "operator!="), (chr '=', ascii "operator="), (SN_MULTassign, ascii "operator*="),
    (SN_DIVassign, ascii "operator/="), (SN_MODassign, ascii "operator%="),
    (SN_PLUSassign, ascii "operator+="), (SN_MINUSassign, ascii "operator-="),
    (SN_LSassign, ascii "operator<<="), (SN_RSassign, ascii "operator>>="),
    (SN_ANDassign, ascii "operator&="), (SN_ERassign, ascii "operator^="),
    (SN_ORassign, ascii "operator|="), (SN_NEW, ascii "operator_new"),
    (SN_DELETE, ascii "operator_delete"), (chr ',', ascii "operator,")]

def operator_function_name (ts : List StackEntry) : Parsed :=
  if token ts 0 ≠ SN_OPERATOR then (false, [], ts)
  else
    match operatorTexts.lookup (token ts 1) with
    | some text => (true, text, ts.drop 2)
    | none =>
      if token ts 1 = chr '(' then
        if token ts 2 = chr ')' then (true, ascii "operator()", ts.drop 3) else (false, [], ts)
      else if token ts 1 = chr '[' then
        if token ts 2 = chr ']' then (true, ascii "operator[]", ts.drop 3) else (false, [], ts)
      else
        match conversion_type_name specifiers (ts.drop 1) with
        | (true, text, rest) => (true, ascii "operator_" ++ text, rest)
        | (false, text, _) => (false, ascii "operator_" ++ text, ts)

/-- The name after `A::` may be missing: what the inner call returns is not looked at. -/
def qualified_name_x : Nat → List StackEntry → Parsed
  | 0, ts => (false, [], ts)
  | n + 1, ts =>
    if token ts 0 = SN_IDENTIFIER ∧ token ts 1 = SN_CLCL then
      let (_, text, rest) := qualified_name_x n (ts.drop 2)
      (true, ident ts 0 ++ ascii "::" ++ text, rest)
    else if token ts 0 = SN_IDENTIFIER ∧ token ts 1 = chr '<' then
      let (args, rest) := template_argument_skip (ts.drop 1)
      if token rest 0 = SN_CLCL then
        let (_, text, rest) := qualified_name_x n (rest.drop 1)
        (true, ident ts 0 ++ ascii "::" ++ args ++ text, rest)
      else (false, ident ts 0 ++ ascii "::" ++ args, ts)
    else if token ts 0 = SN_IDENTIFIER then (true, ident ts 0, ts.drop 1)
    else if token ts 0 = SN_OPERATOR then
      match operator_function_name specifiers ts with
      | (true, text, rest) => (true, text, rest)
      | (false, text, _) => (false, text, ts)
    else if token ts 0 = chr '~' then
      if token ts 1 = SN_IDENTIFIER then (true, ascii "~" ++ ident ts 1, ts.drop 2)
      else (false, [], ts)
    else (false, [], ts)

def qualified_name (ts : List StackEntry) : Parsed :=
  qualified_name_x specifiers (ts.length + 1) ts

end Operators

/-! ### Cutting names -/

abbrev COLON : UInt8 := 58

/-- `strrchr`: the parts of a string before and after the last occurrence of a character. -/
def cutLast (c : UInt8) (s : Text) : Option (Text × Text) :=
  (cut c s.reverse).map fun parts => (parts.2.reverse, parts.1.reverse)

/-- The size of the static buffer of `get_scope`. -/
def scopeSize : Nat := 2000

/-- The scope of a name, if it has one. There is no result when it does not fit into the buffer. -/
def get_scope (name : Text) : Option (Option Text) :=
  match cutLast COLON name with
  | none => some none
  | some (before, _) =>
    if before.getLast? = some COLON then
      if before.dropLast.length < scopeSize then some (some before.dropLast) else none
    else some none

def get_name (name : Text) : Text :=
  match cutLast COLON name with
  | none => name
  | some (_, after) => after

/-! ### Well-formed names -/

structure Ident where
  entry : StackEntry
  identifier : entry.token = SN_IDENTIFIER
  plain : COLON ∉ entry.ident

/-- The brackets among some tokens match, with this many open before them. -/
def Closed : Nat → List StackEntry → Prop
  | depth, [] => depth = 0
  | depth, t :: ts =>
    t.token ≠ 0 ∧
      if t.token = chr '<' then Closed (depth + 1) ts
      else if t.token = chr '>' then depth ≠ 0 ∧ Closed (depth - 1) ts
      else Closed depth ts

/-- A template argument list of any tokens. -/
structure TemplateArgs where
  less : StackEntry
  tokens : List StackEntry
  greater : StackEntry
  opens : less.token = chr '<'
  closed : Closed 0 tokens
  closes : greater.token = chr '>'

/-- The tokens one after the other, with blanks between words. -/
def appendTokens (bFirst : Bool) (buf : Text) : List StackEntry → Text
  | [] => buf
  | t :: ts => appendTokens false (appendToken bFirst buf t) ts

def TemplateArgs.text (a : TemplateArgs) : Text := appendTokens true (ascii "<") a.tokens ++ ascii ">"

def TemplateArgs.entries (a : TemplateArgs) : List StackEntry := a.less :: (a.tokens ++ [a.greater])

/-- An identifier with an optional template argument list. -/
structure Component where
  name : Ident
  args : Option TemplateArgs

namespace Component

def argsText (x : Component) : Text := (x.args.map TemplateArgs.text).getD []

def text (x : Component) : Text := x.name.entry.ident ++ x.argsText

def entries (x : Component) : List StackEntry :=
  x.name.entry :: (x.args.map TemplateArgs.entries).getD []

end Component

/-- A component with the `::` after it. -/
structure Qualifier where
  component : Component
  clcl : StackEntry
  separates : clcl.token = SN_CLCL

def Qualifier.entries (q : Qualifier) : List StackEntry := q.component.entries ++ [q.clcl]

/-- How a declarator name ends. -/
inductive LastName
  | ident (name : Ident)
  | destructor (tilde : StackEntry) (is : tilde.token = chr '~') (name : Ident)
  | operator (tokens : List StackEntry) (text : Text)

namespace LastName

def entries : LastName → List StackEntry
  | ident name => [name.entry]
  | destructor tilde _ name => [tilde, name.entry]
  | operator tokens _ => tokens

def text : LastName → Text
  | ident name => name.entry.ident
  | destructor _ _ name => ascii "~" ++ name.entry.ident
  | operator _ text => text

/-- The name ends where other tokens go on. -/
def Ends (specifiers : Specifiers) (rest : List StackEntry) : LastName → Prop
  | ident _ => token rest 0 ≠ SN_CLCL ∧ token rest 0 ≠ chr '<'
  | destructor _ _ _ => True
  | operator tokens text => operator_function_name specifiers (tokens ++ rest) = (true, text, rest)

end LastName

/-- The name of a declarator. -/
structure DeclaratorName where
  qualifiers : List Qualifier
  last : LastName

def DeclaratorName.entries (x : DeclaratorName) : List StackEntry :=
  x.qualifiers.flatMap Qualifier.entries ++ x.last.entries

/-- The name of a class. -/
structure ClassName where
  qualifiers : List Qualifier
  last : Component

namespace ClassName

def entries (x : ClassName) : List StackEntry :=
  x.qualifiers.flatMap Qualifier.entries ++ x.last.entries

/-- The name ends where other tokens go on. -/
def Ends (rest : List StackEntry) (x : ClassName) : Prop :=
  (x.last.args = none → token rest 0 ≠ chr '<') ∧
    ¬ (token rest 0 = SN_CLCL ∧ token rest 1 = SN_IDENTIFIER)

end ClassName

/-- The components before the last one, without a `::` at the end. -/
def scopeOf (qualifiers : List Qualifier) : Option Text :=
  if qualifiers = [] then none
  else some (List.intercalate (ascii "::") (qualifiers.map fun q => q.component.text))

/-- The name and the scope that are reported for a text are these. -/
def SplitAs (text name : Text) (scope : Option Text) : Prop :=
  get_name text = name ∧ get_scope text = some scope

/-! ### The text of a name -/

section Read

variable {rest : List StackEntry} {qualifiers : List Qualifier}

theorem templateLoop_closed {tokens : List StackEntry} {greater : StackEntry} {depth : Nat}
    {bFirst : Bool} {buf : Text} (closed : Closed depth tokens) (closes : greater.token = chr '>') :
    templateLoop (depth + 1) bFirst buf (tokens ++ greater :: rest) =
      (appendTokens bFirst buf tokens ++ ascii ">", rest) := by
  induction tokens generalizing depth bFirst buf with
  | nil =>
    obtain rfl : depth = 0 := closed
    rw [List.nil_append, templateLoop, closes, if_neg (by decide)]
    rfl
  | cons t ts ih =>
    obtain ⟨inside, closed⟩ := closed
    rw [List.cons_append, templateLoop, if_neg inside, appendTokens]
    dsimp only
    split at closed
    case isTrue opens =>
      rw [if_pos opens, if_neg (Nat.succ_ne_zero _)]
      exact ih closed
    case isFalse other =>
      rw [if_neg other]
      split at closed
      case isTrue shuts =>
        obtain ⟨pos, closed⟩ := closed
        rw [if_pos shuts, if_neg (by omega)]
        have depth_eq : depth + 1 - 1 = depth - 1 + 1 := by omega
        rw [depth_eq]
        exact ih closed
      case isFalse plain =>
        rw [if_neg plain, if_neg (Nat.succ_ne_zero _)]
        exact ih closed

theorem TemplateArgs.skip (a : TemplateArgs) (rest : List StackEntry) :
    template_argument_skip (a.entries ++ rest) = (a.text, rest) := by
  have eq : (a.entries ++ rest).drop 1 = a.tokens ++ a.greater :: rest := by simp [entries]
  rw [template_argument_skip, eq]
  exact templateLoop_closed a.closed a.closes

/-- What `qualified_name` appends for the qualifiers. -/
def appended (qualifiers : List Qualifier) : Text :=
  qualifiers.flatMap fun q => q.component.name.entry.ident ++ ascii "::" ++ q.component.argsText

/-- The qualifiers as they are written. -/
def written (qualifiers : List Qualifier) : Text :=
  qualifiers.flatMap fun q => q.component.text ++ ascii "::"

section Name

variable {specifiers : Specifiers} {last : LastName} {n : Nat}

theorem qualified_name_last (ends : last.Ends specifiers rest) :
    qualified_name_x specifiers (n + 1) (last.entries ++ rest) = (true, last.text, rest) := by
  cases last with
  | ident name =>
    obtain ⟨clcl, less⟩ := ends
    have first : token (name.entry :: rest) 0 = SN_IDENTIFIER := name.identifier
    have second : token (name.entry :: rest) 1 = token rest 0 := by simp [token]
    change qualified_name_x specifiers (n + 1) (name.entry :: rest) = _
    rw [qualified_name_x, second, if_neg (by simp [clcl]), if_neg (by simp [less]), if_pos first]
    rfl
  | destructor tilde is name =>
    have first : token (tilde :: name.entry :: rest) 0 = chr '~' := is
    have second : token (tilde :: name.entry :: rest) 1 = SN_IDENTIFIER := name.identifier
    change qualified_name_x specifiers (n + 1) (tilde :: name.entry :: rest) = _
    have other (P : Prop) : ¬ (chr '~' = SN_IDENTIFIER ∧ P) := fun h => absurd h.1 (by decide)
    rw [qualified_name_x, first, if_neg (other _), if_neg (other _), if_neg (by decide),
      if_neg (by decide), if_pos rfl, if_pos second]
    rfl
  | operator tokens text =>
    have ends : operator_function_name specifiers (tokens ++ rest) = (true, text, rest) := ends
    have first : token (tokens ++ rest) 0 = SN_OPERATOR := by
      by_contra other
      rw [operator_function_name, if_pos other] at ends
      cases ends
    change qualified_name_x specifiers (n + 1) (tokens ++ rest) = _
    have other (P : Prop) : ¬ (SN_OPERATOR = SN_IDENTIFIER ∧ P) := fun h => absurd h.1 (by decide)
    rw [qualified_name_x, first, if_neg (other _), if_neg (other _), if_neg (by decide),
      if_pos rfl, ends]
    rfl

theorem qualified_name_cons (q : Qualifier) {ts : List StackEntry} {text : Text}
    (read : qualified_name_x specifiers n ts = (true, text, rest)) :
    qualified_name_x specifiers (n + 1) (q.entries ++ ts) =
      (true, q.component.name.entry.ident ++ ascii "::" ++ q.component.argsText ++ text, rest) := by
  obtain ⟨⟨name, args⟩, clcl, separates⟩ := q
  cases args with
  | none =>
    have first : token (name.entry :: clcl :: ts) 0 = SN_IDENTIFIER := name.identifier
    have second : token (name.entry :: clcl :: ts) 1 = SN_CLCL := separates
    change qualified_name_x specifiers (n + 1) (name.entry :: clcl :: ts) = _
    have left : List.drop 2 (name.entry :: clcl :: ts) = ts := rfl
    rw [qualified_name_x, if_pos ⟨first, second⟩, left, read]
    simp [ident, Component.argsText]
  | some a =>
    have whole : Qualifier.entries ⟨⟨name, some a⟩, clcl, separates⟩ ++ ts =
        name.entry :: (a.entries ++ clcl :: ts) := by
      simp [Qualifier.entries, Component.entries]
    have first : token (name.entry :: (a.entries ++ clcl :: ts)) 0 = SN_IDENTIFIER :=
      name.identifier
    have second : token (name.entry :: (a.entries ++ clcl :: ts)) 1 = chr '<' := a.opens
    have after : token (clcl :: ts) 0 = SN_CLCL := separates
    have other : ¬ (token (name.entry :: (a.entries ++ clcl :: ts)) 0 = SN_IDENTIFIER ∧
        chr '<' = SN_CLCL) := fun h => absurd h.2 (by decide)
    have left : List.drop 1 (name.entry :: (a.entries ++ clcl :: ts)) = a.entries ++ clcl :: ts :=
      rfl
    have behind : List.drop 1 (clcl :: ts) = ts := rfl
    rw [whole, qualified_name_x, second, if_neg other, if_pos ⟨first, rfl⟩, left, a.skip]
    dsimp only
    rw [if_pos after, behind, read]
    simp [ident, Component.argsText]

theorem qualified_name_x_eq (ends : last.Ends specifiers rest) (enough : qualifiers.length < n) :
    qualified_name_x specifiers n (qualifiers.flatMap Qualifier.entries ++ (last.entries ++ rest)) =
      (true, appended qualifiers ++ last.text, rest) := by
  induction qualifiers generalizing n with
  | nil =>
    obtain ⟨n, rfl⟩ := Nat.exists_eq_add_of_le' (Nat.succ_le_of_lt enough)
    exact qualified_name_last ends
  | cons q qualifiers ih =>
    rw [List.length_cons] at enough
    obtain ⟨n, rfl⟩ : ∃ m, n = m + 1 := ⟨n - 1, by omega⟩
    rw [List.flatMap_cons, List.append_assoc, qualified_name_cons q (ih (by omega))]
    simp [appended]

end Name

section Class

variable {last : Component} {n : Nat}

/-- One component, with the tokens that are left after it. -/
theorem class_component (x : Component) (ends : x.args = none → token rest 0 ≠ chr '<') :
    (if token (x.entries ++ rest) 1 = chr '<' then
        template_argument_skip ((x.entries ++ rest).drop 1)
      else ([], (x.entries ++ rest).drop 1)) = (x.argsText, rest) := by
  obtain ⟨name, args⟩ := x
  cases args with
  | none =>
    have second : token (name.entry :: rest) 1 = token rest 0 := by simp [token]
    change (if token (name.entry :: rest) 1 = _ then _ else _) = _
    rw [second, if_neg (ends rfl)]
    rfl
  | some a =>
    have second : token (name.entry :: (a.entries ++ rest)) 1 = chr '<' := a.opens
    change (if token (name.entry :: (a.entries ++ rest)) 1 = _ then _ else _) = _
    rw [if_pos second]
    exact a.skip rest

theorem qualified_class_name_x_eq (args : last.args = none → token rest 0 ≠ chr '<')
    (ends : ¬ (token rest 0 = SN_CLCL ∧ token rest 1 = SN_IDENTIFIER))
    (enough : qualifiers.length < n) :
    qualified_class_name_x n (qualifiers.flatMap Qualifier.entries ++ (last.entries ++ rest)) =
      (written qualifiers ++ last.text, rest) := by
  induction qualifiers generalizing n with
  | nil =>
    obtain ⟨n, rfl⟩ := Nat.exists_eq_add_of_le' (Nat.succ_le_of_lt enough)
    have first : ident (last.entries ++ rest) 0 = last.name.entry.ident := rfl
    change qualified_class_name_x (n + 1) (last.entries ++ rest) = _
    rw [qualified_class_name_x, class_component last args]
    dsimp only
    rw [if_neg ends, first]
    rfl
  | cons q qualifiers ih =>
    rw [List.length_cons] at enough
    obtain ⟨n, rfl⟩ : ∃ m, n = m + 1 := ⟨n - 1, by omega⟩
    let ts := qualifiers.flatMap Qualifier.entries ++ (last.entries ++ rest)
    have whole : (q :: qualifiers).flatMap Qualifier.entries ++ (last.entries ++ rest) =
        q.component.entries ++ q.clcl :: ts := by
      simp [ts, Qualifier.entries]
    have first : ident (q.component.entries ++ q.clcl :: ts) 0 = q.component.name.entry.ident := rfl
    have clcl : token (q.clcl :: ts) 0 = SN_CLCL := q.separates
    have next : token (q.clcl :: ts) 1 = SN_IDENTIFIER := by
      cases qualifiers with
      | nil => exact last.name.identifier
      | cons q' qualifiers => exact q'.component.name.identifier
    have less : token (q.clcl :: ts) 0 ≠ chr '<' := by
      rw [clcl]
      decide
    have behind : List.drop 1 (q.clcl :: ts) = ts := rfl
    rw [whole, qualified_class_name_x, class_component q.component fun _ => less]
    dsimp only
    rw [if_pos ⟨clcl, next⟩, first, behind, ih (by omega)]
    simp [written, Component.text]

end Class

end Read

/-! ### Cutting the text -/

section Cut

variable {c : UInt8} {s a b last : Text} {qualifiers : List Qualifier}

theorem cutLast_append (out : c ∉ b) : cutLast c (a ++ c :: b) = some (a, b) := by
  have reversed : (a ++ c :: b).reverse = b.reverse ++ c :: a.reverse := by simp
  rw [cutLast, reversed, cut_append (by simpa using out)]
  simp

theorem cutLast_eq_some (h : cutLast c s = some (a, b)) : c ∉ b ∧ s = a ++ c :: b := by
  obtain ⟨⟨x, y⟩, found, parts⟩ := Option.map_eq_some_iff.mp h
  obtain ⟨rfl, rfl⟩ := Prod.mk.inj parts
  obtain ⟨out, eq⟩ := cut_eq_some found
  refine ⟨by simpa using out, ?_⟩
  rw [← List.reverse_reverse s, eq]
  simp

theorem cutLast_eq_none : cutLast c s = none ↔ c ∉ s := by
  constructor
  · intro h
    simpa using cut_eq_none (Option.map_eq_none_iff.mp h)
  · intro out
    cases found : cutLast c s with
    | none => rfl
    | some parts =>
      obtain ⟨-, eq⟩ := cutLast_eq_some found
      exact absurd (by rw [eq]; simp) out

/-- A name that is cut off is at the end of the text, after a colon. -/
theorem colon_of_get_name {name : Text} (h : get_name (s ++ name) = name) :
    COLON ∉ name ∧ (s = [] ∨ ∃ before, s = before ++ [COLON]) := by
  rw [get_name] at h
  cases found : cutLast COLON (s ++ name) with
  | none =>
    rw [found] at h
    have out := cutLast_eq_none.mp found
    refine ⟨fun mem => out (List.mem_append_right _ mem), .inl ?_⟩
    simpa using h
  | some parts =>
    obtain ⟨before, after⟩ := parts
    rw [found] at h
    obtain rfl : after = name := h
    obtain ⟨out, eq⟩ := cutLast_eq_some found
    refine ⟨out, .inr ⟨before, ?_⟩⟩
    have cancel : s ++ after = (before ++ [COLON]) ++ after := by simpa using eq
    exact List.append_cancel_right cancel

theorem written_eq (q : Qualifier) :
    written (q :: qualifiers) = List.intercalate (ascii "::")
      ((q :: qualifiers).map fun q => q.component.text) ++ ascii "::" := by
  induction qualifiers generalizing q with
  | nil => simp [written, List.intercalate]
  | cons q' qualifiers ih =>
    have rest := ih q'
    rw [written, List.flatMap_cons, ← written, rest]
    simp [List.intercalate]

/-- The scope fits into the buffer. -/
def Fits (qualifiers : List Qualifier) : Prop :=
  ∀ scope, scopeOf qualifiers = some scope → scope.length < scopeSize

/-- When the text ends with the scope, two colons and the name, it is split there. -/
theorem splitAs_written : SplitAs (written qualifiers ++ last) last (scopeOf qualifiers) ↔
    COLON ∉ last ∧ Fits qualifiers := by
  cases qualifiers with
  | nil =>
    have whole : written [] ++ last = last := rfl
    have none : scopeOf [] = none := rfl
    have fits : Fits [] := fun scope eq => nomatch eq
    rw [whole, none, and_iff_left fits]
    constructor
    · intro split
      exact (colon_of_get_name (s := []) split.1).1
    · intro out
      have uncut : cutLast COLON last = Option.none := cutLast_eq_none.mpr out
      refine ⟨?_, ?_⟩
      · rw [get_name, uncut]
      · rw [get_scope, uncut]
  | cons q qualifiers =>
    let scope := List.intercalate (ascii "::") ((q :: qualifiers).map fun q => q.component.text)
    have some : scopeOf (q :: qualifiers) = some scope := rfl
    have fits : Fits (q :: qualifiers) ↔ scope.length < scopeSize := by
      constructor
      · intro fits
        exact fits scope some
      · intro short scope' eq
        exact Option.some.inj (some.symm.trans eq) ▸ short
    have whole : written (q :: qualifiers) ++ last = (scope ++ [COLON]) ++ COLON :: last := by
      rw [written_eq]
      simp [scope, ascii]
      rfl
    have scope_eq (out : COLON ∉ last) : get_scope (written (q :: qualifiers) ++ last) =
        if scope.length < scopeSize then Option.some (Option.some scope) else none := by
      rw [get_scope, whole, cutLast_append out]
      simp
    rw [fits]
    constructor
    · intro ⟨name, cutOff⟩
      have out := (colon_of_get_name name).1
      rw [scope_eq out] at cutOff
      split at cutOff
      case isTrue short => exact ⟨out, short⟩
      case isFalse => exact nomatch cutOff
    · intro ⟨out, short⟩
      refine ⟨?_, ?_⟩
      · rw [get_name, whole, cutLast_append out]
      · rw [scope_eq out, if_pos short, some]

theorem appendTokens_prefix (tokens : List StackEntry) (bFirst : Bool) (buf : Text) :
    ∃ more, appendTokens bFirst buf tokens = buf ++ more := by
  induction tokens generalizing bFirst buf with
  | nil => exact ⟨[], (List.append_nil buf).symm⟩
  | cons t ts ih =>
    obtain ⟨more, eq⟩ := ih false (appendToken bFirst buf t)
    obtain ⟨last, token⟩ : ∃ last, appendToken bFirst buf t = buf ++ last := by
      rw [appendToken, List.append_assoc]
      exact ⟨_, rfl⟩
    exact ⟨last ++ more, by rw [appendTokens, eq, token, List.append_assoc]⟩

theorem TemplateArgs.text_eq (a : TemplateArgs) : ∃ more, a.text = 60 :: more := by
  obtain ⟨more, eq⟩ := appendTokens_prefix a.tokens true (ascii "<")
  refine ⟨more ++ ascii ">", ?_⟩
  rw [text, eq, List.append_assoc]
  rfl

/-- The separator is appended before the template arguments: the text is right when there are no
arguments only. -/
theorem appended_eq_written : appended qualifiers = written qualifiers ↔
    ∀ q ∈ qualifiers, q.component.args = none := by
  induction qualifiers with
  | nil => simp [appended, written]
  | cons q qualifiers ih =>
    have left : appended (q :: qualifiers) = q.component.name.entry.ident ++
        (COLON :: COLON :: (q.component.argsText ++ appended qualifiers)) := by
      simp [appended]
      rfl
    have right : written (q :: qualifiers) = q.component.name.entry.ident ++
        (q.component.argsText ++ COLON :: COLON :: written qualifiers) := by
      simp [written, Component.text]
      rfl
    rw [left, right, List.append_cancel_left_eq, List.forall_mem_cons, ← ih]
    cases args : q.component.args with
    | none =>
      have empty : q.component.argsText = [] := by rw [Component.argsText, args]; rfl
      simp [empty]
    | some a =>
      obtain ⟨more, eq⟩ := a.text_eq
      have text : q.component.argsText = 60 :: more := by
        rw [Component.argsText, args, Option.map_some, eq]
        rfl
      have ne : COLON ≠ (60 : UInt8) := by decide
      simp [text, ne]

/-- Two colons at the end are cut off with the name. -/
theorem scope_of_split {before : Text}
    (whole : appended qualifiers = before ++ [COLON]) (out : COLON ∉ last)
    (split : get_scope (appended qualifiers ++ last) = some (scopeOf qualifiers)) :
    appended qualifiers = written qualifiers := by
  cases qualifiers with
  | nil => rfl
  | cons q qualifiers =>
    have text : appended (q :: qualifiers) ++ last = before ++ COLON :: last := by
      rw [whole]
      simp
    rw [get_scope, text, cutLast_append out] at split
    dsimp only at split
    split at split
    case isFalse => exact nomatch Option.some.inj split
    case isTrue colon =>
      split at split
      case isFalse => cases split
      case isTrue =>
        have scope := Option.some.inj (Option.some.inj split)
        rw [whole, written_eq, ← scope, ← List.dropLast_append_getLast? COLON colon]
        simp [ascii]
        rfl

/-- The name that `qualified_name` builds is split right when no qualifier has template arguments
and the last component has no colon. -/
theorem splitAs_appended : SplitAs (appended qualifiers ++ last) last (scopeOf qualifiers) ↔
    (∀ q ∈ qualifiers, q.component.args = none) ∧ COLON ∉ last ∧ Fits qualifiers := by
  rw [← appended_eq_written]
  constructor
  · intro split
    obtain ⟨out, whole⟩ := colon_of_get_name split.1
    have same : appended qualifiers = written qualifiers := by
      rcases whole with empty | ⟨before, whole⟩
      · cases qualifiers with
        | nil => rfl
        | cons q qualifiers => exact absurd empty (by simp [appended, ascii])
      · exact scope_of_split whole out split.2
    rw [same] at split
    exact ⟨same, splitAs_written.mp split⟩
  · intro ⟨same, split⟩
    rw [same]
    exact splitAs_written.mpr split

end Cut

/-! ### Names -/

/-- Where the names of declarators and classes are split. -/
theorem names_split_iff (specifiers : Specifiers) :
    (∀ (x : DeclaratorName) (rest : List StackEntry), x.last.Ends specifiers rest →
      ∃ text, qualified_name specifiers (x.entries ++ rest) = (true, text, rest) ∧
        (SplitAs text x.last.text (scopeOf x.qualifiers) ↔
          (∀ q ∈ x.qualifiers, q.component.args = none) ∧ COLON ∉ x.last.text ∧
            Fits x.qualifiers)) ∧
      ∀ (x : ClassName) (rest : List StackEntry), x.Ends rest →
        ∃ text, complete_class_name (x.entries ++ rest) = (true, text, rest) ∧
          (SplitAs text x.last.text (scopeOf x.qualifiers) ↔
            COLON ∉ x.last.text ∧ Fits x.qualifiers) := by
  have short (qualifiers : List Qualifier) (more : List StackEntry) :
      qualifiers.length < (qualifiers.flatMap Qualifier.entries ++ more).length + 1 := by
    have each : qualifiers.length ≤ (qualifiers.flatMap Qualifier.entries).length := by
      induction qualifiers with
      | nil => exact Nat.le_refl 0
      | cons q qualifiers ih =>
        have some : 1 ≤ q.entries.length := by simp [Qualifier.entries]
        rw [List.flatMap_cons, List.length_append, List.length_cons]
        omega
    rw [List.length_append]
    omega
  constructor
  · intro x rest ends
    refine ⟨appended x.qualifiers ++ x.last.text, ?_, splitAs_appended⟩
    rw [qualified_name, DeclaratorName.entries, List.append_assoc]
    exact qualified_name_x_eq ends (short x.qualifiers _)
  · intro x rest ends
    refine ⟨written x.qualifiers ++ x.last.text, ?_, splitAs_written⟩
    have first : token (x.entries ++ rest) 0 = SN_IDENTIFIER := by
      obtain ⟨qualifiers, last⟩ := x
      cases qualifiers with
      | nil => exact last.name.identifier
      | cons q qualifiers => exact q.component.name.identifier
    rw [complete_class_name, first, if_neg (by decide), if_pos rfl, qualified_class_name,
      ClassName.entries, List.append_assoc,
      qualified_class_name_x_eq ends.1 ends.2 (short x.qualifiers _)]

/-! ### Two names -/

/-- No class and no enumeration is read. -/
def Specifiers.none : Specifiers := ⟨fun _ => .none, fun _ => .none⟩

def plainIdent (text : Text) (plain : COLON ∉ text) : Ident := ⟨⟨SN_IDENTIFIER, text, 0, 0⟩, rfl, plain⟩

def clcl : StackEntry := ⟨SN_CLCL, ascii "::", 0, 0⟩

/-- The arguments `<int>`. -/
def intArgs : TemplateArgs :=
  { less := ⟨chr '<', ascii "<", 0, 0⟩
    tokens := [⟨SN_INT, ascii "int", 0, 0⟩]
    greater := ⟨chr '>', ascii ">", 0, 0⟩
    opens := rfl
    closed := ⟨by decide, by rw [if_neg (by decide), if_neg (by decide)]; rfl⟩
    closes := rfl }

/-- The component `Vector`, with arguments or not. -/
def vector (args : Option TemplateArgs) : Component := ⟨plainIdent (ascii "Vector") (by decide), args⟩

/-- The method `f` of a component. -/
def methodOf (component : Component) : DeclaratorName :=
  { qualifiers := [⟨component, clcl, rfl⟩]
    last := .ident (plainIdent (ascii "f") (by decide)) }

/-- The parenthesis after a name. -/
def paren : List StackEntry := [⟨chr '(', ascii "(", 0, 0⟩]

theorem names_split_vector :
    (∃ text, qualified_name .none ((methodOf (vector none)).entries ++ paren) = (true, text, paren) ∧
      SplitAs text (ascii "f") (some (ascii "Vector"))) ∧
      ∃ text, complete_class_name ((ClassName.mk [] (vector (some intArgs))).entries ++ paren) =
        (true, text, paren) ∧ SplitAs text (ascii "Vector<int>") none := by
  obtain ⟨declarators, classes⟩ := names_split_iff .none
  refine ⟨?_, ?_⟩
  · obtain ⟨text, read, split⟩ := declarators (methodOf (vector none)) paren ⟨by decide, by decide⟩
    refine ⟨text, read, split.mpr ⟨?_, by decide, ?_⟩⟩
    · intro q mem
      obtain rfl := List.mem_singleton.mp mem
      rfl
    · intro scope eq
      obtain rfl := Option.some.inj eq
      decide +kernel
  · obtain ⟨text, read, split⟩ := classes ⟨[], vector (some intArgs)⟩ paren ⟨by exact nofun, by decide⟩
    refine ⟨text, read, split.mpr ⟨by decide, ?_⟩⟩
    intro scope eq
    cases eq

/-- The method `f` of `Vector<int>` is reported as `<int>f`. -/
theorem template_method_misnamed :
    (methodOf (vector (some intArgs))).last.Ends .none paren ∧
      ∃ text, qualified_name .none ((methodOf (vector (some intArgs))).entries ++ paren) =
        (true, text, paren) ∧ get_name text = ascii "<int>f" ∧
          ¬ SplitAs text (ascii "f") (some (ascii "Vector<int>")) := by
  refine ⟨⟨by decide, by decide⟩, ascii "Vector::<int>f", by decide +kernel, by decide +kernel, ?_⟩
  intro split
  exact absurd split.1 (by decide +kernel)

end SourceNavigator.Cpp.Names
