import SourceNavigator.Cpp.Token
import Mathlib.Data.List.TakeWhile

/-!
The tokens of a type (`TokenLex` and `f_Strcat` in `cpp/cpplib/cp_type.c`).

A type is stored as a text and read again as tokens: words, which are keywords
or identifiers, the two colons, and single characters. The keywords are found
with the hash table of `cpkeyw.c`, in which each of them stands at its own
place. The code of a byte from 128 on is a number of its own here; in the source
it is negative.

The text is put together with `f_Strcat`, which sets a space behind a word.
-/

namespace SourceNavigator.Cpp.Types

/-- `struct _sToken` -/
structure Tok where
  iToken : Nat
  text : Text
  deriving DecidableEq, Repr

/-- `LexKeyWordTab`, with the codes of `cpdefines.h`. -/
def LexKeyWordTab : List (Text × Nat) :=
  [(ascii "asm", 257), (ascii "auto", 258), (ascii "break", 259), (ascii "case", 260),
    (ascii "catch", 261), (ascii "char", 262), (ascii "class", 263), (ascii "const", 264),
    (ascii "continue", 265), (ascii "default", 266), (ascii "delete", 267), (ascii "do", 268),
    (ascii "double", 269), (ascii "else", 270), (ascii "enum", 271), (ascii "extern", 272),
    (ascii "float", 273), (ascii "for", 274), (ascii "friend", 275), (ascii "goto", 276),
    (ascii "if", 277), (ascii "inline", 278), (ascii "int", 279), (ascii "long", 280),
    (ascii "new", 281), (ascii "operator", 282), (ascii "overload", 283), (ascii "private", 284),
    (ascii "protected", 285), (ascii "public", 286), (ascii "register", 287),
    (ascii "return", 288), (ascii "short", 289), (ascii "signed", 290), (ascii "sizeof", 291),
    (ascii "static", 292), (ascii "struct", 293), (ascii "switch", 294), (ascii "template", 295),
    (ascii "this", 296), (ascii "throw", 297), (ascii "try", 298), (ascii "typedef", 299),
    (ascii "union", 300), (ascii "unsigned", 301), (ascii "virtual", 302), (ascii "void", 303),
    (ascii "volatile", 304), (ascii "while", 305), (ascii "namespace", 341), (ascii "using", 342),
    (ascii "interface", 352), (ascii "bool", 353)]

def isalnum (c : UInt8) : Bool :=
  (48 ≤ c && c ≤ 57) || (65 ≤ c && c ≤ 90) || (97 ≤ c && c ≤ 122)

/-- A letter or the underscore, with which a word begins. -/
def beginsWord (c : UInt8) : Bool := (65 ≤ c && c ≤ 90) || (97 ≤ c && c ≤ 122) || c = 95

def continuesWord (c : UInt8) : Bool := isalnum c || c = 95

/-- The code of a word. -/
def wordCode (word : Text) : Nat := (LexKeyWordTab.lookup word).getD SN_IDENTIFIER

/-- A keyword has its place in the table. -/
theorem wordCode_cases (word : Text) :
    wordCode word = SN_IDENTIFIER ∨ (word, wordCode word) ∈ LexKeyWordTab := by
  unfold wordCode
  cases found : LexKeyWordTab.lookup word with
  | none => exact .inl rfl
  | some c =>
    obtain ⟨l1, l2, table, -⟩ := List.lookup_eq_some_iff.mp found
    exact .inr (table ▸ List.mem_append_right l1 List.mem_cons_self)

/-- The code of a word is not one of a character. -/
theorem wordCode_gt (word : Text) : 256 < wordCode word := by
  have codes : ∀ keyword ∈ LexKeyWordTab, 256 < keyword.2 := by decide
  cases wordCode_cases word with
  | inl identifier =>
    rw [identifier]
    decide
  | inr keyword => exact codes _ keyword

/-- The tokens that `TokenLex` delivers up to the end of the string; a token uses up at least one
character, so that there are no more of them than characters. -/
def lexFrom : Nat → Text → List Tok
  | 0, _ => []
  | _, [] => []
  | n + 1, yychar :: pcLex =>
    if yychar = 0 then []
    else if beginsWord yychar then
      let word := yychar :: pcLex.takeWhile continuesWord
      ⟨wordCode word, word⟩ :: lexFrom n (pcLex.dropWhile continuesWord)
    else if yychar = 32 ∨ yychar = 9 ∨ yychar = 13 ∨ yychar = 10 then lexFrom n pcLex
    else if yychar = 58 then
      match pcLex with
      | 58 :: pcLex => ⟨SN_CLCL, [58, 58]⟩ :: lexFrom n pcLex
      | pcLex => ⟨58, [58]⟩ :: lexFrom n pcLex
    else ⟨yychar.toNat, [yychar]⟩ :: lexFrom n pcLex

def lex (pc : Text) : List Tok := lexFrom pc.length pc

/-- What a token can be. -/
inductive IsToken : Tok → Prop
  | word {c : UInt8} {s : Text} (begins : beginsWord c = true) (continues : ∀ d ∈ s, continuesWord d = true) :
      IsToken ⟨wordCode (c :: s), c :: s⟩
  | colons : IsToken ⟨SN_CLCL, [58, 58]⟩
  | character {c : UInt8} (more : c ≠ 0) (notWord : beginsWord c = false) : IsToken ⟨c.toNat, [c]⟩

theorem lexFrom_tokens (n : Nat) (pc : Text) : ∀ t ∈ lexFrom n pc, IsToken t := by
  induction n generalizing pc with
  | zero => exact fun t among => absurd among List.not_mem_nil
  | succ n ih =>
    have first {t : Tok} (isToken : IsToken t) (pcLex : Text) :
        ∀ t' ∈ t :: lexFrom n pcLex, IsToken t' := by
      intro t' among
      cases List.mem_cons.mp among with
      | inl same => exact same ▸ isToken
      | inr among => exact ih pcLex t' among
    cases pc with
    | nil => exact fun t among => absurd among List.not_mem_nil
    | cons yychar pcLex =>
      unfold lexFrom
      split
      · exact fun t among => absurd among List.not_mem_nil
      · rename_i more
        split
        · rename_i begins
          exact first (.word begins fun d among => List.mem_takeWhile_imp among) _
        · rename_i notWord
          have notWord := Bool.eq_false_iff.mpr notWord
          split
          · exact ih pcLex
          · split
            · split
              · exact first .colons _
              · exact first (@IsToken.character 58 (by decide) (by decide)) _
            · exact first (.character more notWord) _

theorem lex_tokens (pc : Text) : ∀ t ∈ lex pc, IsToken t := lexFrom_tokens pc.length pc

/-- No token has the code of the end of the text. -/
theorem IsToken.code_ne_zero {t : Tok} (isToken : IsToken t) : t.iToken ≠ 0 := by
  cases isToken with
  | word begins continues =>
    rename_i c s
    have := wordCode_gt (c :: s)
    dsimp only
    omega
  | colons => decide
  | character more notWord => exact fun zero => more (UInt8.toNat_inj.mp zero)

theorem IsToken.nul {t : Tok} (isToken : IsToken t) : (0 : UInt8) ∉ t.text := by
  cases isToken with
  | word begins continues =>
    intro among
    cases List.mem_cons.mp among with
    | inl zero => exact absurd (zero ▸ begins) (by decide)
    | inr among => exact absurd (continues 0 among) (by decide)
  | colons => decide
  | character more notWord => simpa using more.symm

/-- An identifier is a word. -/
theorem IsToken.identifier {t : Tok} (isToken : IsToken t) (code : t.iToken = SN_IDENTIFIER) :
    ∃ c s, t.text = c :: s ∧ beginsWord c = true ∧ ∀ d ∈ s, continuesWord d = true := by
  cases isToken with
  | word begins continues => exact ⟨_, _, rfl, begins, continues⟩
  | colons => exact absurd code (by decide)
  | character more notWord =>
    rename_i c
    have := c.toNat_lt
    simp only [SN_IDENTIFIER] at code
    omega

/-- The characters behind which `f_Strcat` sets a space. -/
def endsWord (c : UInt8) : Bool := isalnum c || c = 95 || c = 36

def f_Strcat (pc1 pc2 : Text) : Text :=
  match pc2 with
  | [] => pc1
  | c2 :: _ =>
    match pc1.getLast? with
    | some c1 => if endsWord c1 && c2 ≠ 62 then pc1 ++ 32 :: pc2 else pc1 ++ pc2
    | none => pc1 ++ pc2

end SourceNavigator.Cpp.Types
