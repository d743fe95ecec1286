import SourceNavigator.Parsers.CountChars

/-!
The scanner of the PHP parser (`parsers/php/phpbrowser.l`): the modes that turn the
bytes of a file into the list of tokens.

Every rule moves the line and the column on by hand. At each place the rule with
the longest match is taken, and of several the first (`longest`); no rule is taken
for an empty match, since every byte has a rule in every mode. The texts of the
tokens (`strval`, `mode_buff`), the comments and the highlights are left out: no
position is computed from them. The line and the column are unbounded.
-/

namespace SourceNavigator.Parsers.Php

open SourceNavigator.Parsers.CountChars

inductive TokenType
  | OPEN_PAREN | CLOSE_PAREN | OPEN_BRACE | CLOSE_BRACE | OPEN_BRACKET | CLOSE_BRACKET
  | SEMICOLON | COMMA | PERIOD | COLON_CHAR | ATSIGN_CHAR | BACKSLASH_CHAR | BACKSLASHES
  | VARIABLE | THIS_VARIABLE | PARENT_VARIABLE | SOMEWORD
  | ASSIGNMENT_OPERATOR | ASSIGNMENT_OPERATORS | COMPARISON_OPERATORS | INCREMENT_OPERATORS
  | REFERENCE_OPERATOR | UNI_OPERATORS | CLASS_SCOPE_OPERATOR | CLASS_MEMBER_OPERATOR
  | MAPPING_OPERATOR
  | KEYWORD | FUNCTION_KEYWORD | GLOBAL_KEYWORD | INCLUDE_KEYWORD | CLASS_KEYWORD
  | CLASS_EXTENDS_KEYWORD | CLASS_IMPLEMENTS_KEYWORD | NEW_KEYWORD | ARRAY_KEYWORD
  | DEFINE_KEYWORD | TRY_KEYWORD | CATCH_KEYWORD | FINALLY_KEYWORD | ABSTRACT_KEYWORD
  | PUBLIC_KEYWORD | PROTECTED_KEYWORD | PRIVATE_KEYWORD | STATIC_KEYWORD | CONST_KEYWORD
  | GOTO_KEYWORD | NAMESPACE_KEYWORD
  | DOUBLE_QUOTED_STRING | VDOUBLE_QUOTED_STRING | SINGLE_QUOTED_STRING
  | COMMENT_TOKEN | HTML_TOKEN | UNKNOWN_TOKEN

/-- `Token`. Where its first byte stands in the file is noted in `offset`, which the
parser does not have. -/
structure Token where
  type : TokenType
  start : Position
  finish : Position
  vars : List Token
  offset : Nat

/-- The start conditions, without `TOKEN`. -/
inductive Mode
  | HTML_MODE
  | PHP
  | COMMENT_MODE
  | DQSTRING
  | SQSTRING
  | HDSTRING
  deriving DecidableEq

/-- The variables of the scanner. `offset` and `mode_offset`, which it does not have, are where
the next byte and the first byte of the comment, string or HTML part stand. -/
structure Scanner where
  mode : Mode
  rest : Text
  at_bol : Bool
  pos : Position
  mode_start : Position
  heredoc_id : Text
  tokens : List Token
  embedded_dq_string_vars : List Token
  offset : Nat
  mode_offset : Nat

/-! ### The patterns -/

/-- How many bytes a pattern takes at the start of a text, at the most. -/
abbrev Pattern := Text → Option Nat

def literal (w : Text) : Pattern := fun text => if w.isPrefixOf text then some w.length else none

/-- `[...]*` -/
def many (p : UInt8 → Bool) : Pattern := fun text => some (text.takeWhile p).length

/-- `[...]+` -/
def many1 (p : UInt8 → Bool) : Pattern := fun text =>
  if text.head?.any p then some (text.takeWhile p).length else none

/-- One pattern behind another. What the first takes at the most is right wherever it is used: what
is to follow does not begin with a byte that the first could take. -/
def Pattern.followedBy (first second : Pattern) : Pattern := fun text => do
  let n ← first text
  let m ← second (text.drop n)
  some (n + m)

/-- `(\\\")+`: a backslash and the byte, once or more. -/
def escapes (c : UInt8) : Pattern
  | 92 :: d :: text => if d = c then some (2 + (escapes c text).getD 0) else none
  | _ => none

/-- The longest of several words. -/
def oneOf (words : List String) : Pattern := fun text =>
  ((words.filter fun w => (ascii w).isPrefixOf text).map fun w => (ascii w).length).max?

/-- Where two bytes stand one behind the other for the first time. -/
def findPair (c d : UInt8) : Text → Option Nat
  | x :: y :: text =>
    if x = c ∧ y = d then some 0 else (findPair c d (y :: text)).map (· + 1)
  | _ => none

/-- What stands in front of the text of a comment: `#` or two slashes. -/
def commentMark (text : Text) : Nat := if text.head? = some 35 then 1 else 2

/-- `.*("\n"|"?>")` -/
def commentRest : Pattern := fun text =>
  let line := text.takeWhile (· != NEWLINE)
  if (text.drop line.length).head? = some NEWLINE then some (line.length + 1)
  else (findPair 62 63 line.reverse).map fun behind => line.length - behind

/-- `("//"|"#").*("\n"|"?>")` -/
def lineComment : Pattern := fun text =>
  if [35].isPrefixOf text || [47, 47].isPrefixOf text then
    (commentRest (text.drop (commentMark text))).map fun n => commentMark text + n
  else none

/-- `[a-zA-Z0-9_]` -/
def symbolChar (c : UInt8) : Bool :=
  (97 ≤ c && c ≤ 122) || (65 ≤ c && c ≤ 90) || (48 ≤ c && c ≤ 57) || c == 95

/-- `[^...]` -/
def noneOf (cs : List UInt8) : UInt8 → Bool := fun c => !cs.contains c

def newline : Pattern := literal [NEWLINE]

/-- `.` -/
def anyByte : Pattern
  | c :: _ => if c = NEWLINE then none else some 1
  | [] => none

/-- `\${varname}` -/
def variableName : Pattern := (literal [36]).followedBy (many1 symbolChar)

/-- `"<<<"{ws}*{heredoc-id}\n` -/
def heredocStart : Pattern :=
  (literal (ascii "<<<")).followedBy <|
    (many fun c => c == 32 || c == 9).followedBy <| (many1 symbolChar).followedBy newline

/-- `{heredoc-id};\n` -/
def heredocLine : Pattern := (many1 symbolChar).followedBy <| (literal [59]).followedBy newline

/-! ### The rules -/

/-- What the rules do, besides the rule for each kind of token: `text` and `textLine` are the rules
for a part of a text without and with the end of the line. -/
inductive Action
  | enterHtml
  | text
  | textLine
  | openTag
  | lineComment
  | openComment
  | closeComment
  | emptyDqString
  | openDqString
  | openSqString
  | embeddedVar
  | closeDqString
  | closeSqString
  | openHeredoc
  | heredocLine
  | token (type : TokenType)
  | space

/-- `bol` is the `^` in front of a pattern. -/
structure Rule where
  bol : Bool
  pattern : Pattern
  action : Action

def rule (pattern : Pattern) (action : Action) : Rule := ⟨false, pattern, action⟩

/-- The operators and the words, in the order of the rules. -/
def words : List (List String × TokenType) :=
  [(["("], .OPEN_PAREN), ([")"], .CLOSE_PAREN), (["["], .OPEN_BRACKET), (["]"], .CLOSE_BRACKET),
   (["\x7b"], .OPEN_BRACE), ([":"], .COLON_CHAR), (["\x7d"], .CLOSE_BRACE), ([";"], .SEMICOLON),
   (["@"], .ATSIGN_CHAR), (["."], .PERIOD), ([","], .COMMA), (["=>"], .MAPPING_OPERATOR),
   (["="], .ASSIGNMENT_OPERATOR), (["&"], .REFERENCE_OPERATOR), (["::"], .CLASS_SCOPE_OPERATOR),
   (["->"], .CLASS_MEMBER_OPERATOR), (["+", "!", "-", "~"], .UNI_OPERATORS),
   (["==", "===", "!=", "!==", "<>", "<", ">", "<=", ">="], .COMPARISON_OPERATORS),
   (["+=", "-=", "*=", "/=", ".=", "%=", "&=", "|=", "^=", "<<=", ">>="], .ASSIGNMENT_OPERATORS),
   (["++", "--"], .INCREMENT_OPERATORS), (["function"], .FUNCTION_KEYWORD),
   (["global"], .GLOBAL_KEYWORD), (["class"], .CLASS_KEYWORD), (["trait"], .CLASS_KEYWORD),
   (["extends"], .CLASS_EXTENDS_KEYWORD), (["implements"], .CLASS_IMPLEMENTS_KEYWORD),
   (["interface"], .CLASS_KEYWORD), (["new"], .NEW_KEYWORD), (["array"], .ARRAY_KEYWORD),
   (["define"], .DEFINE_KEYWORD), (["try"], .TRY_KEYWORD), (["catch"], .CATCH_KEYWORD),
   (["finally"], .FINALLY_KEYWORD), (["abstract"], .ABSTRACT_KEYWORD),
   (["public"], .PUBLIC_KEYWORD),
   (["protected"], .PROTECTED_KEYWORD), (["private"], .PRIVATE_KEYWORD),
   (["static"], .STATIC_KEYWORD), (["const"], .CONST_KEYWORD), (["goto"], .GOTO_KEYWORD),
   (["namespace"], .NAMESPACE_KEYWORD),
   (["include", "include_once", "require", "require_once"], .INCLUDE_KEYWORD),
   (["and", "or", "xor", "as", "break", "case", "cfunction", "clone", "continue", "declare",
     "default", "die", "do", "echo", "else", "elseif", "empty", "enddeclare", "endfor",
     "endforeach", "endif", "endswitch", "endwhile", "eval", "exit", "false", "finally", "final",
     "for", "foreach", "if", "instanceof", "insteadof", "isset", "list", "null", "old_function",
     "print", "return", "switch", "throw", "true", "unset", "use", "var", "while", "yield",
     "__FUNCTION__", "__FILE__", "__CLASS__", "__LINE__", "__METHOD__", "__DIR__",
     "__NAMESPACE__", "__TRAIT__"], .KEYWORD)]

/-- The rules of a mode, in the order of the file. -/
def rules : Mode → List Rule
  | .HTML_MODE =>
    [rule (many (noneOf [60, 10])) .text,
     rule ((many (noneOf [60, 10])).followedBy newline) .textLine,
     rule (literal [60]) .text,
     rule (oneOf ["<?", "<?=", "<?php", "<?PHP"]) .openTag]
  | .PHP =>
    [rule (literal (ascii "?>")) .enterHtml,
     rule lineComment .lineComment,
     rule (literal (ascii "/*")) .openComment,
     rule (literal [34, 34]) .emptyDqString,
     rule (literal [34]) .openDqString,
     rule (literal [39, 39]) (.token .SINGLE_QUOTED_STRING),
     rule (literal [39]) .openSqString,
     rule heredocStart .openHeredoc] ++
    (words.map fun w => rule (oneOf w.1) (.token w.2)) ++
    [rule (many1 symbolChar) (.token .SOMEWORD),
     rule (literal (ascii "$this")) (.token .THIS_VARIABLE),
     rule (literal (ascii "$parent")) (.token .PARENT_VARIABLE),
     rule variableName (.token .VARIABLE),
     rule (many1 fun c => c == 32 || c == 9 || c == 10) .space,
     rule (literal [92, 36]) (.token .SOMEWORD),
     rule (literal [92, 92]) (.token .BACKSLASHES),
     rule (literal [92]) (.token .BACKSLASH_CHAR),
     rule anyByte (.token .UNKNOWN_TOKEN)]
  | .COMMENT_MODE =>
    [rule (many (noneOf [42, 10])) .text,
     rule ((many (noneOf [42, 10])).followedBy newline) .textLine,
     rule ((many1 (· == 42)).followedBy (many (noneOf [42, 47, 10]))) .text,
     rule ((many1 (· == 42)).followedBy ((many (noneOf [42, 47, 10])).followedBy newline))
       .textLine,
     rule ((many1 (· == 42)).followedBy (literal [47])) .closeComment]
  | .DQSTRING =>
    [rule (many (noneOf [34, 10, 92, 36])) .text,
     rule ((many (noneOf [34, 10, 92, 36])).followedBy newline) .textLine,
     rule (escapes 34) .text,
     rule (literal [92, 92]) .text,
     rule (literal [92]) .text,
     rule variableName .embeddedVar,
     rule (literal [36]) .text,
     rule (literal [34]) .closeDqString]
  | .SQSTRING =>
    [rule (many (noneOf [39, 10, 92])) .text,
     rule ((many (noneOf [39, 10, 92])).followedBy newline) .textLine,
     rule ((escapes 39).followedBy (many (noneOf [39, 47, 10, 92]))) .text,
     rule ((escapes 39).followedBy ((many (noneOf [39, 10, 92])).followedBy newline)) .textLine,
     rule (literal [92, 92]) .text,
     rule (literal [92]) .text,
     rule (literal [39]) .closeSqString]
  | .HDSTRING =>
    [⟨true, heredocLine, .heredocLine⟩,
     rule (many1 (noneOf [36, 10])) .text,
     rule ((many (noneOf [36, 10])).followedBy newline) .textLine,
     rule variableName .embeddedVar,
     rule (literal [36]) .text]

/-- The length of the match of a rule; 0 where there is none. -/
def Rule.length (at_bol : Bool) (text : Text) (r : Rule) : Nat :=
  if r.bol && !at_bol then 0 else (r.pattern text).getD 0

/-- The longest match, of the first rule that has it. -/
def longest (at_bol : Bool) (text : Text) : List Rule → Option (Nat × Action)
  | [] => none
  | r :: later =>
    match longest at_bol text later with
    | some (m, action) =>
      if r.length at_bol text < m then some (m, action)
      else some (r.length at_bol text, r.action)
    | none => if r.length at_bol text = 0 then none else some (r.length at_bol text, r.action)

/-! ### The actions -/

section Actions

-- the option `-T`
variable (token_dump_file : Bool)

def Scanner.advance_column (num : Int) (s : Scanner) : Scanner :=
  { s with pos := sn_advance_column num s.pos }

/-- `sn_advance_line` and `sn_reset_column` -/
def Scanner.next_line (s : Scanner) : Scanner :=
  { s with pos := sn_reset_column (sn_advance_line s.pos) }

def append_token (type : TokenType) (start finish : Position) (offset : Nat) (s : Scanner) :
    Scanner :=
  { s with tokens := s.tokens ++ [⟨type, start, finish, [], offset⟩] }

def append_dqstring_var_token (start finish : Position) (offset : Nat) (s : Scanner) : Scanner :=
  { s with embedded_dq_string_vars :=
      s.embedded_dq_string_vars ++ [⟨.VARIABLE, start, finish, [], offset⟩] }

def append_dqstring_token (start finish : Position) (offset : Nat) (s : Scanner) : Scanner :=
  if s.embedded_dq_string_vars ≠ [] then
    { s with
      tokens := s.tokens ++
        [⟨.VDOUBLE_QUOTED_STRING, start, finish, s.embedded_dq_string_vars, offset⟩]
      embedded_dq_string_vars := [] }
  else append_token .DOUBLE_QUOTED_STRING start finish offset s

def enter_html_mode (s : Scanner) : Scanner :=
  if token_dump_file then
    { s with mode_start := s.pos, mode_offset := s.offset, mode := .HTML_MODE }
  else { s with mode := .HTML_MODE }

def emit_html (s : Scanner) : Scanner :=
  if token_dump_file then append_token .HTML_TOKEN s.mode_start s.pos s.mode_offset s else s

def emit_comment (s : Scanner) : Scanner :=
  if token_dump_file then
    append_token .COMMENT_TOKEN (sn_advance_column (-2) s.mode_start) (sn_advance_column 2 s.pos)
      s.mode_offset s
  else s

def emit_dqstring (s : Scanner) : Scanner :=
  append_dqstring_token s.mode_start s.pos s.mode_offset s

def emit_sqstring (s : Scanner) : Scanner :=
  append_token .SINGLE_QUOTED_STRING s.mode_start s.pos s.mode_offset s

/-- The byte behind the string is the semicolon. -/
def emit_hdstring (semicolon : Nat) (s : Scanner) : Scanner :=
  append_token .SEMICOLON s.pos (sn_advance_column 1 s.pos) semicolon
    (append_dqstring_token s.mode_start s.pos s.mode_offset s)

/-- The action of a rule; `s.offset` is where `yytext` stands. -/
def act (action : Action) (yytext : Text) (s : Scanner) : Scanner :=
  let yyleng := yytext.length
  let behind := sn_advance_column yyleng s.pos
  match action with
  | .enterHtml => (enter_html_mode token_dump_file s).advance_column 2
  | .text => s.advance_column yyleng
  | .textLine => s.next_line
  | .openTag => { emit_html token_dump_file (s.advance_column yyleng) with mode := .PHP }
  | .lineComment =>
    let mark := commentMark yytext
    let s := s.advance_column mark
    -- `strlen(x)`, when the newline has been overwritten
    let length := ((yytext.drop mark).takeWhile fun c => c != 0 && c != NEWLINE).length
    let s := if token_dump_file then
        append_token .COMMENT_TOKEN (sn_advance_column (-mark) s.pos)
          (sn_advance_column length s.pos) s.offset s
      else s
    if yytext.getLast? = some NEWLINE then s.next_line else s.advance_column (yyleng - mark)
  | .openComment =>
    let s := s.advance_column 2
    { s with mode := .COMMENT_MODE, mode_start := s.pos, mode_offset := s.offset }
  | .closeComment => { (emit_comment token_dump_file s).advance_column yyleng with mode := .PHP }
  | .emptyDqString => (append_dqstring_token s.pos behind s.offset s).advance_column yyleng
  | .openDqString =>
    { s.advance_column yyleng with
      mode_start := s.pos, mode_offset := s.offset, embedded_dq_string_vars := []
      mode := .DQSTRING }
  | .openSqString =>
    { s.advance_column yyleng with
      mode_start := s.pos, mode_offset := s.offset, mode := .SQSTRING }
  | .embeddedVar => (append_dqstring_var_token s.pos behind s.offset s).advance_column yyleng
  | .closeDqString => { emit_dqstring (s.advance_column yyleng) with mode := .PHP }
  | .closeSqString => { emit_sqstring (s.advance_column yyleng) with mode := .PHP }
  | .openHeredoc =>
    let x := (yytext.drop 3).dropWhile fun c => c == 32 || c == 9
    { s.next_line with
      mode_start := s.pos, mode_offset := s.offset
      heredoc_id := x.takeWhile (· != NEWLINE) ++ [59, NEWLINE]
      embedded_dq_string_vars := [], mode := .HDSTRING }
  | .heredocLine =>
    if yytext = s.heredoc_id then
      -- to the semicolon
      let s := s.advance_column ((yyleng - 2 : Nat) : Int)
      let s := emit_hdstring (s.offset + (yyleng - 2)) s
      { s.next_line with mode := .PHP }
    else s
  | .token type => (append_token type s.pos behind s.offset s).advance_column yyleng
  | .space =>
    let pos := yytext.foldl
      (fun pos c => if c = NEWLINE then sn_advance_line pos else pos) s.pos
    if NEWLINE ∈ yytext then
      -- `y` is behind the last newline
      { s with pos := sn_advance_column (lastLine yytext).length (sn_reset_column pos) }
    else { s with pos := sn_advance_column yyleng pos }

/-- How much of the match the action keeps: a comment ends in front of a `?>` (`yyless`), which is
looked for up to the first NUL. -/
def kept (action : Action) (matched : Text) : Nat :=
  match action with
  | .lineComment =>
    let mark := commentMark matched
    match findPair 63 62 ((matched.drop mark).takeWhile (· != 0)) with
    | some offset => mark + offset
    | none => matched.length
  | _ => matched.length

/-- One match and its action. -/
def step (s : Scanner) : Scanner :=
  match longest s.at_bol s.rest (rules s.mode) with
  | none => s
  | some (n, action) =>
    let matched := s.rest.take n
    let yytext := matched.take (kept action matched)
    let s' := act token_dump_file action yytext
      { s with at_bol := matched.getLast? == some NEWLINE }
    { s' with rest := s.rest.drop yytext.length, offset := s.offset + yytext.length }

/-- What is appended at the end of the file. -/
def endOfFile (s : Scanner) : Scanner :=
  match s.mode with
  | .COMMENT_MODE => emit_comment token_dump_file s
  | .DQSTRING => emit_dqstring s
  | .SQSTRING => emit_sqstring s
  | .HDSTRING => emit_hdstring s.offset s
  | .HTML_MODE => emit_html token_dump_file s
  | .PHP => s

/-- `reset` and `enter_html_mode`, with the text of a file to be read. -/
def startOf (text : Text) : Scanner :=
  enter_html_mode token_dump_file
    { mode := .HTML_MODE, rest := text, at_bol := true, pos := ⟨1, 0⟩, mode_start := ⟨1, 0⟩
      heredoc_id := [], tokens := [], embedded_dq_string_vars := [], offset := 0, mode_offset := 0 }

/-- The scanner after so many matches. -/
def after (text : Text) (n : Nat) : Scanner :=
  (step token_dump_file)^[n] (startOf token_dump_file text)

/-- The tokens of a file. Every match takes a byte, so that the file has been read when there have
been as many as it has bytes (`rest_after`). -/
def tokens (text : Text) : List Token :=
  (endOfFile token_dump_file (after token_dump_file text text.length)).tokens

end Actions

end SourceNavigator.Parsers.Php
