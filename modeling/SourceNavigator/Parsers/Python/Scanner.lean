import SourceNavigator.Text

/-!
The scanner of the Python parser (`parsers/python/pybrowser.l`).

The rules are tried at every character that no earlier rule has taken. The places
of the symbols are left out. `parse_triple` counts quotes in a variable that is
not initialised; its value is a parameter.
-/

namespace SourceNavigator.Parsers.Python

/-- The symbols that are inserted: `SN_...` -/
inductive Code
  | SN_CLASS_DEF
  | SN_CLASS_INHERIT
  | SN_MBR_FUNC_DEF
  | SN_FUNC_DEF
  | SN_CONS_DEF
  | SN_GLOB_VAR_DEF
  deriving DecidableEq

/-- What `sn_insert_symbol` is called with. -/
structure Symbol where
  code : Code
  classname : Option Text
  name : Text
  deriving DecidableEq

/-- `struct stack`, one entry. -/
structure Entry where
  indent : Nat
  code : Code
  name : Text
  deriving DecidableEq

/-! ### The stack -/

/-- A blank moves on by one column and a tab to the next multiple of eight. -/
def advance (indent : Nat) (c : UInt8) : Nat := if c = 32 then indent + 1 else indent / 8 * 8 + 8

/-- `calc_indent`: the column of the first character that is no blank or tab. -/
def calc_indent (text : Text) : Nat :=
  (text.takeWhile fun c => c == 32 || c == 9).foldl advance 0

def pop (indent : Nat) (scope_stack : List Entry) : List Entry :=
  scope_stack.dropWhile fun e => indent ≤ e.indent

/-- The class that a function belongs to by the top of the stack. -/
def ownerClass (scope_stack : List Entry) : Option Text :=
  match scope_stack.head? with
  | some e => if e.code = .SN_CLASS_DEF then some e.name else none
  | none => none

/-! ### The patterns -/

/-- `[ \t]` -/
def blankTab (c : UInt8) : Bool := c == 32 || c == 9

/-- `[a-zA-Z_]` -/
def nameStart (c : UInt8) : Bool := (97 ≤ c && c ≤ 122) || (65 ≤ c && c ≤ 90) || c == 95

/-- `[a-zA-Z_0-9]` -/
def nameChar (c : UInt8) : Bool := nameStart c || (48 ≤ c && c ≤ 57)

/-- The text behind a word. -/
def word (w : Text) (text : Text) : Option Text :=
  if w.isPrefixOf text then some (text.drop w.length) else none

/-- `[ \t]+[a-zA-Z_][a-zA-Z_0-9]*[ \t]*`: the name and what is behind it. -/
def blanksAndName (text : Text) : Option (Text × Text) :=
  if (text.head?.any blankTab) && ((text.dropWhile blankTab).head?.any nameStart) then
    let rest := text.dropWhile blankTab
    some (rest.takeWhile nameChar, (rest.dropWhile nameChar).dropWhile blankTab)
  else none

/-- How many characters the rule for `def` takes. -/
def matchDef (text : Text) : Option Nat := do
  let behind ← word (ascii "def") (text.dropWhile blankTab)
  let (_, rest) ← blanksAndName behind
  if rest.head? = some 40 then some (text.length - rest.length + 1) else none

/-- How many characters the rule for `class` takes. -/
def matchClass (text : Text) : Option Nat := do
  let behind ← word (ascii "class") (text.dropWhile blankTab)
  let (_, rest) ← blanksAndName behind
  -- `(\([^)]*\))?`
  let rest ← if rest.head? = some 40 then word [41] (rest.dropWhile (· != 41)) else some rest
  let rest := rest.dropWhile blankTab
  if rest.head? = some 58 then some (text.length - rest.length + 1) else none

/-- How many characters the rules for variables and constants take. -/
def matchVar (text : Text) : Option Nat :=
  if text.head?.any nameStart then
    let rest := (text.dropWhile nameChar).dropWhile blankTab
    if rest.head? = some 61 then some (text.length - rest.length + 1) else none
  else none

/-- `\"\"\"` or `\'\'\'` -/
def tripleQuote (text : Text) : Option UInt8 :=
  if (ascii "\"\"\"").isPrefixOf text then some 34
  else if (ascii "'''").isPrefixOf text then some 39
  else none

/-! ### The actions -/

/-- The name in the text that the rule for `def` took. The end of the name is looked for in front of
the bracket, and its start from the bracket on. -/
def defName (yytext : Text) : Text :=
  let bracket := yytext.length - 1
  let blanks := ((yytext.take bracket).reverse.takeWhile blankTab).length
  let marked := yytext.set (bracket - blanks) 0
  let back := ((marked.take bracket).reverse.takeWhile fun c => !blankTab c).reverse
  (back ++ marked.drop bracket).takeWhile (· != 0)

/-- The name in the text that the rule for `class` took, and the text behind the character that
ends it. -/
def className (yytext : Text) : Text × Text :=
  let behind := ((yytext.dropWhile isspace).drop 5).dropWhile isspace
  (behind.takeWhile nameChar, (behind.dropWhile nameChar).drop 1)

/-- `baseclasses`: the last parts of the names between the delimiters. -/
def baseclasses (rest : Text) : List Text :=
  ((rest.splitOnP (ascii "():, \t\r\n").contains).filter (· != [])).map fun base =>
    (base.reverse.takeWhile (· != 46)).reverse

/-- The variables that outlive a rule: the stack and the symbols inserted so far. -/
structure Scan where
  scope_stack : List Entry
  symbols : List Symbol

/-- The action for `def`. -/
def defAction (s : Scan) (yytext : Text) : Scan :=
  let indent := calc_indent yytext
  let scope_stack := pop indent s.scope_stack
  let classname := ownerClass scope_stack
  let code := if classname.isSome then Code.SN_MBR_FUNC_DEF else .SN_FUNC_DEF
  { scope_stack := ⟨indent, code, defName yytext⟩ :: scope_stack
    symbols := s.symbols ++ [⟨code, classname, defName yytext⟩] }

/-- The action for `class`. -/
def classAction (s : Scan) (yytext : Text) : Scan :=
  let indent := calc_indent yytext
  let named := className yytext
  { scope_stack := ⟨indent, .SN_CLASS_DEF, named.1⟩ :: pop indent s.scope_stack
    symbols := s.symbols ++ [⟨.SN_CLASS_DEF, none, named.1⟩] ++
      (baseclasses named.2).map fun base => ⟨.SN_CLASS_INHERIT, some named.1, base⟩ }

/-- `[A-Z_][A-Z0-9_]*` -/
def constant (name : Text) : Bool :=
  (name.head?.any fun c => (65 ≤ c && c ≤ 90) || c == 95) &&
    name.all fun c => (65 ≤ c && c ≤ 90) || c == 95 || (48 ≤ c && c ≤ 57)

/-- `var_or_const`, for the rule that comes first. -/
def varAction (s : Scan) (yytext : Text) : Scan :=
  let name := yytext.takeWhile nameChar
  let code := if constant name then Code.SN_CONS_DEF else .SN_GLOB_VAR_DEF
  { s with symbols := s.symbols ++ [⟨code, none, name⟩] }

/-- How many characters `parse_triple` reads. `escaped` says that a backslash is in front. -/
def parse_triple (term : UInt8) : Int → Bool → Text → Nat
  | _, _, [] => 0
  | count, escaped, c :: rest =>
    if escaped then if c = 0 then 1 else parse_triple term 0 false rest + 1
    else if c = term then
      if count + 1 = 3 then 1 else parse_triple term (count + 1) false rest + 1
    else parse_triple term 0 (c == 92) rest + 1

section Scan

-- what `count` happens to be when `parse_triple` starts
variable (count : Int)

/-- The rule for a text that is not empty: how many characters it takes, and what it does. `bol`
says that the text starts a line. -/
def rule (bol : Bool) (s : Scan) (text : Text) : Nat × Scan :=
  match tripleQuote text with
  | some term => (3 + parse_triple term count false (text.drop 3), s)
  | none =>
    if bol then
      match matchDef text with
      | some n => (n, defAction s (text.take n))
      | none =>
        match matchClass text with
        | some n => (n, classAction s (text.take n))
        | none =>
          match matchVar text with
          | some n => (n, varAction s (text.take n))
          | none => (1, s)
    else (1, s)

/-- The scanner, where `taken` characters belong to the rule that came last. -/
def scan : Nat → Bool → Scan → Text → Scan
  | _, _, s, [] => s
  | taken + 1, _, s, c :: rest => scan taken (c == NEWLINE) s rest
  | 0, bol, s, c :: rest =>
    let r := rule count bol s (c :: rest)
    scan (r.1 - 1) (c == NEWLINE) r.2 rest

/-- The functions that are recorded for a file: the class, if there is one, and the name. -/
def functions (scope_stack : List Entry) (text : Text) : List (Option Text × Text) :=
  ((scan count 0 true ⟨scope_stack, []⟩ text).symbols.filter fun symbol =>
    symbol.code = .SN_MBR_FUNC_DEF ∨ symbol.code = .SN_FUNC_DEF).map fun symbol =>
      (symbol.classname, symbol.name)

end Scan

end SourceNavigator.Parsers.Python
