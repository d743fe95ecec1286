import SourceNavigator.Cpp.MacroInput
import SourceNavigator.Lib.Program

/-!
The scanner of the second pass (`f_TokenInput` in `cpp/cpplib/cplex.c`).

`input` and `unput` move in the text and count the columns; the lines are counted
where a line end is read. A token has the position at which its scanning began.
A `#` in front of which no token stands in its line begins a directive, which
`f_Preprocessor` reads with the scanner itself.

The macros, the keywords and the value of an `#if` expression are parameters.
-/

namespace SourceNavigator.Cpp.Scanner

open MacroInput (Macro f_MacroMerge)
open Process (Param PARAMETERS depthBehind)

/-- `lex_mode` -/
inductive LexMode
  | NORMAL | PP | INCLUDE
  deriving DecidableEq, Repr

/-- A token with the place of its text in the file (`sString.text`) and the text of a macro. -/
structure Tok extends Token where
  yytext : Nat := 0
  pcValue : Option Text := none
  deriving DecidableEq, Repr

/-- The static variables. The file are the bytes in front of `yyptr`, the last one first, and those from
there on. -/
structure Lex where
  before : List UInt8 := []
  rest : List UInt8
  yyeof : Nat := 0
  yylineno : Int := 1
  yycharno : Int := 0
  token_in_line_count : Int := 0
  lex_mode : LexMode := .NORMAL
  TokenUnput : Option Tok := none

namespace Lex

def text (s : Lex) : Text := s.before.reverse ++ s.rest

/-- `*yyptr`, which is zero behind the file. -/
def current (s : Lex) : UInt8 := s.rest.headD 0

/-- `input()` -/
def input (s : Lex) : Lex :=
  if s.current ≠ 0 then { s with before := s.current :: s.before, rest := s.rest.tail, yycharno := s.yycharno + 1 }
  else { s with yyeof := s.yyeof + 1, yycharno := s.yycharno + 1 }

/-- `unput()` -/
def unput (s : Lex) : Lex :=
  if s.current = 0 ∧ s.yyeof ≠ 0 then { s with yyeof := s.yyeof - 1, yycharno := s.yycharno - 1 }
  else { s with before := s.before.tail, rest := s.before.head?.toList ++ s.rest, yycharno := s.yycharno - 1 }

def newline (s : Lex) : Lex := { s with yylineno := s.yylineno + 1, yycharno := 0 }

theorem text_input (s : Lex) : s.input.text = s.text := by
  unfold input text current
  cases s.rest with
  | nil => simp
  | cons c cs =>
    by_cases zero : c = 0 <;> simp [zero]

theorem text_unput (s : Lex) : s.unput.text = s.text := by
  unfold unput text
  split
  · rfl
  · cases s.before <;> simp

end Lex

/-- A function that moves in the text. -/
abbrev Scan (α : Type) := Lib.Program Lex.text α

open Lib.Program (read change loop unfinished)

def input : Scan UInt8 := do
  let c ← read Lex.current
  change Lex.input Lex.text_input
  return c

def unput : Scan Unit := change Lex.unput Lex.text_unput

/-- `if( ! p ) unput();` -/
def unputUnless (p : Bool) : Scan Unit := if p then pure () else unput

/-- `yylineno++; yycharno = 0;` -/
def newline : Scan Unit := change Lex.newline

/-- The loop around `body`, which reads in each round. -/
def rounds {α β : Type} (body : β → Scan (β ⊕ α)) (x : β) : Scan α := do
  let length ← read fun s => s.rest.length
  loop (length + 2) body x

/-- `while( p( input()))`; the result is `yychar`. -/
def inputWhile (p : UInt8 → Bool) : Scan UInt8 :=
  rounds (fun _ => do
    let c ← input
    return if p c then .inl () else .inr c) ()

/-- A line end behind its first character `c` is read and counted; the result is `yychar`. -/
def lineEnd (c : UInt8) : Scan UInt8 :=
  if c = CARRIAGE_RETURN then do
    let c ← input
    unputUnless (c == NEWLINE)
    newline
    return c
  else if c = NEWLINE then do
    newline
    return c
  else return c

abbrev byte (c : Char) : UInt8 := c.toUInt8

abbrev QUOTE : UInt8 := 34
abbrev APOSTROPHE : UInt8 := 39
abbrev BACKSLASH : UInt8 := 92

def isdigit (c : UInt8) : Bool := byte '0' ≤ c && c ≤ byte '9'

def isalpha (c : UInt8) : Bool := byte 'a' ≤ c && c ≤ byte 'z' || byte 'A' ≤ c && c ≤ byte 'Z'

def isxdigit (c : UInt8) : Bool :=
  isdigit c || byte 'a' ≤ c && c ≤ byte 'f' || byte 'A' ≤ c && c ≤ byte 'F'

/-- The characters with which an identifier begins. -/
def identifierStart (c : UInt8) : Bool := isalpha c || c == byte '_' || c == byte '$'

/-! ### Tokens -/

abbrev SN_INCLUDEliteral : Nat := 346

/-- Where the scanning of a token began: `yytext`, `yylineno_beg` and `yycharno_beg`. -/
structure Beg where
  yytext : Nat
  yylineno_beg : Int
  yycharno_beg : Int

def begin_ : Scan Beg := read fun s => ⟨s.before.length, s.yylineno, s.yycharno⟩

/-- The fields that every token gets. -/
def makeToken (beg : Beg) (lex : Nat) (s : Lex) : Tok where
  lex
  text := s.before.reverse.drop beg.yytext
  yytext := beg.yytext
  lineno_beg := beg.yylineno_beg
  charno_beg := beg.yycharno_beg
  lineno_end := s.yylineno
  charno_end := s.yycharno

def d_TokenReturn (beg : Beg) (x : Nat) : Scan Tok := do
  let Token ← read (makeToken beg x)
  change fun s => { s with token_in_line_count := s.token_in_line_count + 1 }
  return Token

/-- Behind the `E` of a number. -/
def exponent : Scan UInt8 := do
  let c ← input
  unputUnless (c == byte '+' || c == byte '-')
  let c ← inputWhile isdigit
  if c = byte '.' then inputWhile isdigit else return c

/-- The last character of a number, which is put back if it is none of its suffixes. -/
def suffix (beg : Beg) (bFloat : Bool) (c : UInt8) : Scan Tok :=
  if c = byte 'l' ∨ c = byte 'L' then
    d_TokenReturn beg (if bFloat then SN_FLOATINGconstant else SN_LONGconstant)
  else if c = byte 'u' ∨ c = byte 'U' then
    d_TokenReturn beg (if bFloat then SN_FLOATINGconstant else SN_INTEGERconstant)
  else do
    unput
    d_TokenReturn beg (if bFloat then SN_FLOATINGconstant else SN_INTEGERconstant)

/-- A number behind its digits and the fraction. -/
def scale (beg : Beg) (bFloat : Bool) (c : UInt8) : Scan Tok :=
  if c = byte 'E' ∨ c = byte 'e' then do
    let c ← exponent
    suffix beg true c
  else suffix beg bFloat c

/-- A decimal number; the character behind the ones that are put back was the last to be read. -/
def decimal (beg : Beg) : Scan Tok := do
  unput
  let c ← inputWhile isdigit
  if c = byte '.' then do
    let c ← inputWhile isdigit
    scale beg true c
  else scale beg false c

def number (beg : Beg) (c : UInt8) : Scan Tok :=
  if c = byte '0' then do
    let c ← input
    if c = byte 'X' ∨ c = byte 'x' then do
      let c ← inputWhile isxdigit
      suffix beg false c
    else decimal beg
  else decimal beg

/-- An identifier, with what `LexKeyWordTab` has for its text. -/
def identifier (LexKeyWordTab : Text → Option (Nat × Bool)) (beg : Beg) : Scan Tok := do
  change fun s => { s with token_in_line_count := s.token_in_line_count + 1 }
  let _ ← inputWhile fun c => isalpha c || isdigit c || c == byte '_' || c == byte '$'
  unput
  let Token ← read (makeToken beg SN_IDENTIFIER)
  match LexKeyWordTab Token.text with
  | some (keyword, is_cpp) => return { Token with keyword, is_cpp }
  | none => return Token

/-- A literal up to the quote; line ends in it are counted. -/
def string (beg : Beg) : Scan Tok := do
  rounds (fun _ => do
    let c ← input
    if c = 0 then return .inr ()
    else if c = BACKSLASH then do
      let c ← input
      let _ ← lineEnd c
      return .inl ()
    else if c = QUOTE then return .inr ()
    else do
      let _ ← lineEnd c
      return .inl ()) ()
  d_TokenReturn beg SN_STRINGliteral

/-- A character constant or the name of an included file, which ends at the line end at the latest. -/
def constant (beg : Beg) (close : UInt8) (lex : Nat) : Scan Tok := do
  rounds (fun _ => do
    let c ← input
    if c = 0 then return .inr ()
    else if c = BACKSLASH then do
      let c ← input
      let _ ← lineEnd c
      return .inl ()
    else if c = close then return .inr ()
    else if c = NEWLINE then do
      unput
      return .inr ()
    else return .inl ()) ()
  d_TokenReturn beg lex

/-- The rest of a comment. -/
def comment : Scan Unit :=
  rounds (fun yycharprev => do
    let c ← input
    if c = 0 then return .inr ()
    else if c = byte '/' ∧ yycharprev = byte '*' then return .inr ()
    else do
      let c ← lineEnd c
      return .inl c) (0 : UInt8)

/-- One more character is read: it makes a longer token, or it is put back. -/
def operator (beg : Beg) (lex : Nat) (longer : List (UInt8 × Scan Tok)) : Scan Tok := do
  let c ← input
  match longer.lookup c with
  | some more => more
  | none => do
      unput
      d_TokenReturn beg lex

/-- The tokens that begin with a character which always stands for an operator. -/
def operators (beg : Beg) : List (UInt8 × Scan Tok) :=
  let done := d_TokenReturn beg
  [(byte '>', operator beg (chr '>')
      [(byte '>', operator beg SN_RS [(byte '=', done SN_RSassign)]), (byte '=', done SN_GE)]),
    (byte '=', operator beg (chr '=') [(byte '=', done SN_EQ)]),
    (byte '!', operator beg (chr '!') [(byte '=', done SN_NE)]),
    (byte '+', operator beg (chr '+') [(byte '+', done SN_ICR), (byte '=', done SN_PLUSassign)]),
    (byte '-', operator beg (chr '-')
      [(byte '>', operator beg SN_ARROW [(byte '*', done SN_ARROWstar)]), (byte '-', done SN_DECR),
        (byte '=', done SN_MINUSassign)]),
    (byte '*', operator beg (chr '*') [(byte '=', done SN_MULTassign)]),
    (byte '|', operator beg (chr '|') [(byte '=', done SN_ORassign), (byte '|', done SN_OROR)]),
    (byte '^', operator beg (chr '^') [(byte '=', done SN_ERassign)]),
    (byte '%', operator beg (chr '%') [(byte '=', done SN_MODassign)]),
    (byte '&', operator beg (chr '&') [(byte '=', done SN_ANDassign), (byte '&', done SN_ANDAND)]),
    (byte ':', operator beg (chr ':') [(byte ':', done SN_CLCL)])]

def less (beg : Beg) : Scan Tok := do
  let mode ← read Lex.lex_mode
  if mode = .INCLUDE then constant beg (byte '>') SN_INCLUDEliteral
  else
    operator beg (chr '<')
      [(byte '<', operator beg SN_LS [(byte '=', d_TokenReturn beg SN_LSassign)]),
        (byte '=', d_TokenReturn beg SN_LE)]

def dot (beg : Beg) : Scan Tok := do
  let c ← input
  if c = byte '*' then d_TokenReturn beg SN_DOTstar
  else if c = byte '.' then do
    let c ← input
    if c = byte '.' then d_TokenReturn beg SN_ELLIPSIS
    else do
      unput
      unput
      d_TokenReturn beg (chr '.')
  else if isdigit c then do
    let c ← inputWhile isdigit
    if c = byte 'E' ∨ c = byte 'e' then do
      let c ← exponent
      unputUnless (c == byte 'l' || c == byte 'L')
      d_TokenReturn beg SN_FLOATINGconstant
    else do
      unputUnless (c == byte 'l' || c == byte 'L')
      d_TokenReturn beg SN_FLOATINGconstant
  else do
    unput
    d_TokenReturn beg (chr '.')

/-- The characters that are tokens by themselves. -/
def single : List UInt8 := ascii "()[]\x7b\x7d,;~?@"

/-- A line end is a token in a directive. -/
def endOfLine (beg : Beg) (more : Scan Tok) : Scan Tok := do
  let mode ← read Lex.lex_mode
  if mode = .PP then do
    change fun s => { s with token_in_line_count := -1 }
    d_TokenReturn beg SN_NEWLINE
  else do
    change fun s => { s with token_in_line_count := 0 }
    more

/-- What the scanner looks up: keywords, macros, and the value of a condition. -/
structure Tables where
  LexKeyWordTab : Text → Option (Nat × Bool)
  f_MacroFind : Text → Option Macro
  f_IsDefined : Text → Mode
  ConstantExpression : List Token → Mode

/-- The token of a `defined`. -/
def verdict (T : Tables) (TokenDefined : Tok) : Token :=
  { TokenDefined.toToken with
    lex :=
      match T.f_IsDefined TokenDefined.text with
      | .UNDEF => SN_UNDEF
      | .TRUE => SN_TRUE
      | .FALSE => SN_FALSE }

/-- The value of an `#ifndef`. -/
def opposite : Mode → Mode
  | .TRUE => .FALSE
  | .FALSE => .TRUE
  | .UNDEF => .UNDEF

/-- A part of the name of another macro. -/
def isNamePart (t : Tok) : Bool := t.lex == SN_IDENTIFIER && t.keyword == 0 || t.lex == SN_CLCL

/-- The end of the line as a token, or that of the file. -/
def endsLine (t : Tok) : Bool := t.lex == SN_NEWLINE || t.lex == 0

variable (T : Tables)

mutual

def f_TokenInput : Nat → Scan Tok
  | 0 => unfinished
  | n + 1 => do
      let TokenUnput ← read Lex.TokenUnput
      match TokenUnput with
      | some Token => do
          change fun s => { s with TokenUnput := none }
          return Token
      | none => scan n

/-- The loop of `f_TokenInput`. -/
def scan : Nat → Scan Tok
  | 0 => unfinished
  | n + 1 => do
      let beg ← begin_
      let c ← input
      if isdigit c then number beg c
      else if identifierStart c then identifier T.LexKeyWordTab beg
      else if c = byte ' ' ∨ c = byte '\t' then scan n
      else if c = CARRIAGE_RETURN ∨ c = NEWLINE then do
        let _ ← lineEnd c
        endOfLine beg (scan n)
      else if c = BACKSLASH then do
        let c ← input
        let _ ← lineEnd c
        scan n
      else if c = QUOTE then string beg
      else if c = APOSTROPHE then constant beg APOSTROPHE SN_CHARACTERconstant
      else if c = byte '#' then do
        let count ← read Lex.token_in_line_count
        if count = 0 then do
          let Token ← f_Preprocessor n
          match Token with
          | some Token => return Token
          | none => scan n
        else scan n
      else if c = byte '<' then less beg
      else if c = byte '/' then do
        let c ← input
        if c = byte '=' then d_TokenReturn beg SN_DIVassign
        else if c = byte '*' then do
          comment
          scan n
        else if c = byte '/' then do
          let c ← inputWhile fun c => c != 0 && c != NEWLINE
          if c = NEWLINE then do
            newline
            endOfLine beg (scan n)
          else scan n
        else do
          unput
          d_TokenReturn beg (chr '/')
      else if c = byte '.' then dot beg
      else
        match (operators beg).lookup c with
        | some more => more
        | none =>
          if c ∈ single then d_TokenReturn beg c.toNat
          else if c = 0 then d_TokenReturn beg 0
          else scan n

def f_Preprocessor : Nat → Scan (Option Tok)
  | 0 => unfinished
  | n + 1 => do
      let lex_mode_save ← read Lex.lex_mode
      change fun s => { s with lex_mode := .PP }
      let Token ← __Preprocessor n
      change fun s => { s with lex_mode := lex_mode_save }
      return Token

def __Preprocessor : Nat → Scan (Option Tok)
  | 0 => unfinished
  | n + 1 => do
      let Token ← f_TokenInput n
      if Token.text = ascii "define" then do
        let Token ← f_TokenInput n
        if Token.lex = SN_IDENTIFIER then do
          let pcValue ← f_TokenSkipToNewlineByDefine n
          return some { Token with lex := SN_PP_DEFINE, pcValue }
        else do
          f_TokenSkipToNewline n
          return none
      else if Token.text = ascii "include" then do
        let lex_mode_save ← read Lex.lex_mode
        change fun s => { s with lex_mode := .INCLUDE }
        let Token ← f_TokenInput n
        change fun s => { s with lex_mode := lex_mode_save }
        f_TokenSkipToNewline n
        return if Token.lex = SN_STRINGliteral ∨ Token.lex = SN_INCLUDEliteral then
          some { Token with lex := SN_PP_INCLUDE }
        else none
      else if Token.text = ascii "if" then do
        let tokens ← f_TokenReadToNewline n []
        return some { lex := SN_PP_IF, mode := T.ConstantExpression tokens }
      else if Token.text = ascii "ifdef" then do
        let Token ← f_TokenInput n
        f_TokenSkipToNewline n
        return some { lex := SN_PP_IF, mode := T.f_IsDefined Token.text }
      else if Token.text = ascii "ifndef" then do
        let Token ← f_TokenInput n
        f_TokenSkipToNewline n
        return some { lex := SN_PP_IF, mode := opposite (T.f_IsDefined Token.text) }
      else if Token.text = ascii "else" then do
        f_TokenSkipToNewline n
        return some { lex := SN_PP_ELSE }
      else if Token.text = ascii "elif" then do
        let tokens ← f_TokenReadToNewline n []
        return some { lex := SN_PP_ELIF, mode := T.ConstantExpression tokens }
      else if Token.text = ascii "endif" then do
        f_TokenSkipToNewline n
        return some { lex := SN_PP_ENDIF }
      else if Token.lex = SN_NEWLINE then return none
      else do
        f_TokenSkipToNewline n
        return none

/-- The rounds of the loop behind the first tokens. -/
def f_TokenReadToNewline : Nat → List Token → Scan (List Token)
  | 0, _ => unfinished
  | n + 1, TokenReturn => do
      let next ← f_TokenSpecMacroInput n
      match next with
      | ([], _) => f_TokenReadToNewline n TokenReturn
      | (Token :: more, found) =>
        if found = false ∧ (Token.lex = SN_NEWLINE ∨ Token.lex = 0) then return TokenReturn ++ Token :: more
        else f_TokenReadToNewline n (TokenReturn ++ Token :: more)

def f_TokenSkipToNewline : Nat → Scan Unit
  | 0 => unfinished
  | n + 1 => do
      let Token ← f_TokenInput n
      if endsLine Token then return () else f_TokenSkipToNewline n

/-- The text of a macro that is the name of another one. -/
def f_TokenSkipToNewlineByDefine : Nat → Scan (Option Text)
  | 0 => unfinished
  | n + 1 => do
      let Token ← f_TokenInput n
      if isNamePart Token then do
        let lstr ← f_TokenSkipName n Token.text Token.lex
        return some lstr
      else if endsLine Token then return none
      else do
        f_TokenSkipToNewline n
        return none

/-- The loop of `f_TokenSkipToNewlineByDefine`, behind the first parts of the name. -/
def f_TokenSkipName : Nat → Text → Nat → Scan Text
  | 0, _, _ => unfinished
  | n + 1, lstr, lex_last => do
      let Token ← f_TokenInput n
      if isNamePart Token ∧ Token.lex ≠ lex_last then f_TokenSkipName n (lstr ++ Token.text) Token.lex
      else if endsLine Token then return lstr
      else do
        f_TokenSkipToNewline n
        return lstr

/-- The rest of the function is `f_TokenMacroInput`. -/
def f_TokenSpecMacroInput : Nat → Scan (List Token × Bool)
  | 0 => unfinished
  | n + 1 => do
      let Token ← f_TokenInput n
      if Token.lex = SN_IDENTIFIER then
        if Token.text = ascii "defined" then do
          let Token ← f_TokenInput n
          if Token.lex = chr '(' then do
            let TokenDefined ← f_TokenInput n
            let _ ← f_TokenInput n
            return ([verdict T TokenDefined], false)
          else return ([verdict T Token], false)
        else f_TokenMacroInput n Token
      else return ([Token.toToken], false)

def f_TokenMacroInput : Nat → Tok → Scan (List Token × Bool)
  | 0, _ => unfinished
  | n + 1, Token =>
    match T.f_MacroFind Token.text with
    | none => return ([Token.toToken], false)
    | some Macro =>
      match Macro.typ with
      | .CPP_DEFINE => return (f_MacroMerge Macro Token.toToken none, true)
      | .CPP_MACRO => do
          let TokenNext ← f_TokenInput n
          if TokenNext.lex = chr '(' then do
            let Param ← f_ParamCreate n []
            return (f_MacroMerge Macro Token.toToken (some Param), true)
          else do
            change fun s => { s with TokenUnput := some TokenNext }
            return ([Token.toToken], true)
      | .CPP_UNDEF => return ([Token.toToken], false)

/-- There is no state behind a store outside of the array. -/
def f_ParamCreate : Nat → Param → Scan Param
  | 0, _ => unfinished
  | n + 1, Param => do
      let found ← f_ParamToken n [] 0
      if PARAMETERS ≤ Param.length then unfinished
      else if found.2 then f_ParamCreate n (Param ++ [found.1])
      else return Param ++ [found.1]

/-- The rounds of the loop behind the first tokens, with `p` parentheses open. -/
def f_ParamToken : Nat → List Token → Nat → Scan (List Token × Bool)
  | 0, _, _ => unfinished
  | n + 1, TokenReturn, p => do
      let Token ← f_TokenInput n
      if Token.lex = SN_IDENTIFIER then do
        let next ← f_TokenMacroInput n Token
        f_ParamToken n (TokenReturn ++ next.1) p
      else if p = 0 ∧ Token.lex = chr ',' then return (TokenReturn, true)
      else if p = 0 ∧ (Token.lex = chr ')' ∨ Token.lex = 0) then return (TokenReturn, false)
      else f_ParamToken n (TokenReturn ++ [Token.toToken]) (depthBehind Token.toToken p)

end

end SourceNavigator.Cpp.Scanner
