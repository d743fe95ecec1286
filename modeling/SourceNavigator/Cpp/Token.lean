import SourceNavigator.Text

/-!
Tokens of the C/C++ parsers (`parsers/cpp/cpplib/cplex.h`, `cpdefines.h`).

A token carries the code the lexer gave it (`lex`), the keyword code of an
identifier, its text, the verdict of an `#if` or `#elif` condition, the
parameter position inside a macro body and its position in the source. The
codes of one-character tokens are the character codes; the others are the
numbers of `cpdefines.h`. Only the codes that the modelled functions compare
with are listed.

A parser sees the tokens as entries of its value stack, with the code of its
keyword mode. After the last token the lexer delivers the token `0`.
-/

namespace SourceNavigator.Cpp

abbrev SN_ASM : Nat := 257
abbrev SN_AUTO : Nat := 258
abbrev SN_CHAR : Nat := 262
abbrev SN_CLASS : Nat := 263
abbrev SN_CONST : Nat := 264
abbrev SN_DELETE : Nat := 267
abbrev SN_DOUBLE : Nat := 269
abbrev SN_ENUM : Nat := 271
abbrev SN_EXTERN : Nat := 272
abbrev SN_FLOAT : Nat := 273
abbrev SN_FRIEND : Nat := 275
abbrev SN_INLINE : Nat := 278
abbrev SN_INT : Nat := 279
abbrev SN_LONG : Nat := 280
abbrev SN_NEW : Nat := 281
abbrev SN_OPERATOR : Nat := 282
abbrev SN_PRIVATE : Nat := 284
abbrev SN_PROTECTED : Nat := 285
abbrev SN_PUBLIC : Nat := 286
abbrev SN_REGISTER : Nat := 287
abbrev SN_RETURN : Nat := 288
abbrev SN_SHORT : Nat := 289
abbrev SN_SIGNED : Nat := 290
abbrev SN_STATIC : Nat := 292
abbrev SN_STRUCT : Nat := 293
abbrev SN_TEMPLATE : Nat := 295
abbrev SN_THROW : Nat := 297
abbrev SN_TYPEDEF : Nat := 299
abbrev SN_UNION : Nat := 300
abbrev SN_UNSIGNED : Nat := 301
abbrev SN_VIRTUAL : Nat := 302
abbrev SN_VOID : Nat := 303
abbrev SN_VOLATILE : Nat := 304
@[match_pattern] abbrev SN_IDENTIFIER : Nat := 306
abbrev SN_STRINGliteral : Nat := 307
abbrev SN_FLOATINGconstant : Nat := 308
abbrev SN_INTEGERconstant : Nat := 309
abbrev SN_CHARACTERconstant : Nat := 310
abbrev SN_LONGconstant : Nat := 311
@[match_pattern] abbrev SN_PP_IF : Nat := 312
@[match_pattern] abbrev SN_PP_ELSE : Nat := 314
@[match_pattern] abbrev SN_PP_ENDIF : Nat := 315
abbrev SN_ARROW : Nat := 316
abbrev SN_ICR : Nat := 317
abbrev SN_DECR : Nat := 318
abbrev SN_LS : Nat := 319
abbrev SN_RS : Nat := 320
abbrev SN_LE : Nat := 321
abbrev SN_GE : Nat := 322
abbrev SN_EQ : Nat := 323
abbrev SN_NE : Nat := 324
abbrev SN_ANDAND : Nat := 325
abbrev SN_OROR : Nat := 326
abbrev SN_ELLIPSIS : Nat := 327
abbrev SN_CLCL : Nat := 328
abbrev SN_DOTstar : Nat := 329
abbrev SN_ARROWstar : Nat := 330
abbrev SN_MULTassign : Nat := 331
abbrev SN_DIVassign : Nat := 332
abbrev SN_MODassign : Nat := 333
abbrev SN_PLUSassign : Nat := 334
abbrev SN_MINUSassign : Nat := 335
abbrev SN_LSassign : Nat := 336
abbrev SN_RSassign : Nat := 337
abbrev SN_ANDassign : Nat := 338
abbrev SN_ERassign : Nat := 339
abbrev SN_ORassign : Nat := 340
abbrev SN_NAMESPACE : Nat := 341
abbrev SN_USING : Nat := 342
abbrev SN_TYPEDEF_TO_CLASS : Nat := 343
@[match_pattern] abbrev SN_PP_ELIF : Nat := 344
abbrev SN_NEWLINE : Nat := 345
abbrev SN_TRUE : Nat := 347
abbrev SN_FALSE : Nat := 348
abbrev SN_UNDEF : Nat := 349
@[match_pattern] abbrev SN_PP_DEFINE : Nat := 350
@[match_pattern] abbrev SN_PP_INCLUDE : Nat := 351
abbrev SN_INTERFACE : Nat := 352
abbrev SN_BOOL : Nat := 353

/-- The verdict of a condition: `CPLEX_FALSE`, `CPLEX_UNDEF`, `CPLEX_TRUE`. -/
inductive Mode where
  | FALSE
  | UNDEF
  | TRUE
  deriving DecidableEq, Repr

/-- `struct sToken`, without the ring and free-list pointers. -/
structure Token where
  lex : Nat
  keyword : Nat := 0
  text : List UInt8 := []
  is_cpp : Bool := false
  mode : Mode := .FALSE
  iParameter : Int := -1
  lineno_beg : Int := 0
  charno_beg : Int := 0
  lineno_end : Int := 0
  charno_end : Int := 0
  deriving DecidableEq, Repr

/-- The code of a one-character token. -/
abbrev chr (c : Char) : Nat := c.toNat

/-- An entry of the value stack of a parser (`ZZSTYPE`). -/
structure StackEntry where
  token : Nat
  ident : Text := []
  lineno : Int := 0
  charno : Int := 0
  deriving DecidableEq, Repr

/-- `token( i )`, counted from the first of the tokens that are left. -/
def token (ts : List StackEntry) (i : Nat) : Nat := ((ts[i]?).map StackEntry.token).getD 0

/-- `ident( i )` -/
def ident (ts : List StackEntry) (i : Nat) : Text := ((ts[i]?).map StackEntry.ident).getD []

end SourceNavigator.Cpp
