import SourceNavigator.Hyper.SelectRange

/-!
The search command of a tree table (`hyper/tkTreeTable.c`).

A search forwards walks through the open sub trees and looks at the lines of the
range. In the mode `-regexp` it looks at the texts without their last character.
A search backwards begins on line 0, whatever the range is, and ends behind it.

* `search_right_iff` says when a search finds the line it should find.
-/

namespace SourceNavigator.Hyper

open Lib
open Db (tolower)

/-- The functions of Tcl that a search calls. A regular expression is what `Tcl_RegExpExec`
returns for it on a text: -1 for an error, 0 for a text that does not match. -/
structure TclMatch where
  Tcl_StringMatch : Text → Text → Bool
  Tcl_RegExpCompile : Text → Option (Text → Int)
  Tcl_SetVar : Text → Int → Bool

/-- The modes of a search. -/
inductive SearchMode
  | SRCH_EXACT
  | SRCH_GLOB
  | SRCH_REGEXP
  | SRCH_BEGINS
  deriving DecidableEq

/-- The parameters of a search. -/
structure searchParam_t where
  pattern : Text
  varName : Option Text
  backwards : Bool
  exact : SearchMode
  noCase : Bool
  realindex : Bool
  regexp : Text → Int
  index : Int
  stopIndex : Int

inductive ReturnCode
  | TCL_OK
  | TCL_ERROR
  deriving DecidableEq

/-- What a search changes: the line, the code, and the numbers in the result of the command. -/
structure SearchState where
  lineNum : Int
  code : ReturnCode
  result : List Int

/-- How the text of a line is found: with the number for `-count`, or not, or with an error. -/
inductive Look
  | found (matchLength : Int)
  | missed
  | failed
  deriving DecidableEq

/-- A text in lower case, if upper and lower case are not told apart. -/
def foldCase (noCase : Bool) (text : Text) : Text := if noCase then text.map tolower else text

/-- `cmpProc (text, pattern, n) == 0` with `strncmp` or `strncasecmp`. -/
def cmpProc (noCase : Bool) (text pattern : Text) (n : Nat) : Bool :=
  (foldCase noCase text).take n == (foldCase noCase pattern).take n

namespace searchParam_t

variable (prm : searchParam_t)

/-- The text in `prm->line`, which is empty before. -/
def line (text : Text) : Text :=
  let line := if prm.exact = .SRCH_REGEXP then text.dropLast else text
  foldCase prm.noCase line

/-- The text of a line is compared with the pattern. -/
def look (I : TclMatch) (text : Text) : Look :=
  match prm.exact with
  | .SRCH_EXACT =>
    let patLength := prm.pattern.length
    if patLength = text.length ∧ cmpProc prm.noCase text prm.pattern patLength then .found 0
    else .missed
  | .SRCH_BEGINS =>
    let patLength := prm.pattern.length
    if cmpProc prm.noCase text prm.pattern patLength then .found 0 else .missed
  | .SRCH_REGEXP =>
    let matchLength := prm.regexp (prm.line text)
    if matchLength = -1 then .failed
    else if matchLength = 0 then .missed
    else .found matchLength
  | .SRCH_GLOB => if I.Tcl_StringMatch (prm.line text) prm.pattern then .found 0 else .missed

/-- The line is appended to the result, or with `-count` the number that is stored. -/
def report (I : TclMatch) (matchLength : Int) (s : SearchState) : SearchState :=
  match prm.varName with
  | none => { s with result := s.result ++ [s.lineNum] }
  | some varName =>
    if I.Tcl_SetVar varName matchLength then { s with result := s.result ++ [matchLength] }
    else { s with code := .TCL_ERROR }

end searchParam_t

namespace TreeTable

variable (t : TreeTable)

/-- Behind an item and its sub tree the search goes on with the next item of the list. -/
def nextLine (prm : searchParam_t) (nextPtr : Option Ptr)
    (goOn : SearchState → Except Fault (Int × SearchState)) (ret : Int) (s : SearchState) :
    Except Fault (Int × SearchState) :=
  if ret < 0 then .ok (ret, s)
  else if nextPtr.isNone then .ok (0, s)
  else if prm.stopIndex < s.lineNum then .ok (-1, s)
  else goOn (if t.numItems ≤ s.lineNum then { s with lineNum := 0 } else s)

/-- `TreeTableSearchCmd_x` forwards. -/
def searchForwards (I : TclMatch) (prm : searchParam_t) :
    Nat → Option Ptr → SearchState → Except Fault (Int × SearchState)
  | _, none, s => .ok (0, s)
  | 0, some _, _ => .error .fuel
  | n + 1, some linePtr, s => do
      let x ← t.read linePtr
      let looked :=
        if s.lineNum < prm.index ∨ prm.stopIndex < s.lineNum then .missed else prm.look I x.text
      match looked with
      | .found matchLength => pure (-1, prm.report I matchLength s)
      | .failed => pure (0, { s with code := .TCL_ERROR })
      | .missed => do
          let s := { s with lineNum := s.lineNum + 1 }
          let (ret, s) ←
            (if x.succPtr.isSome && !x.hidden_subtree then searchForwards I prm n x.succPtr s
            else pure (0, { s with lineNum := s.lineNum + x.succNum }))
          t.nextLine prm x.nextPtr (fun s => searchForwards I prm n x.nextPtr s) ret s

/-- The item of a line for a search backwards. -/
def lineItem (prm : searchParam_t) (lineNum : Int) : Except Fault (TreeTable × Option Ptr) :=
  if prm.realindex then t.TreeTableFindItem lineNum
  else do
    let linePtr ← t.TreeTableFindNotHiddenItem lineNum 0
    pure (t, linePtr)

/-- `TreeTableSearchCmd_x` backwards. -/
def searchBackwards (I : TclMatch) (prm : searchParam_t) :
    Nat → TreeTable → Option Ptr → SearchState → Except Fault (TreeTable × Int × SearchState)
  | _, t, none, s => .ok (t, 0, s)
  | 0, _, some _, _ => .error .fuel
  | n + 1, t, some linePtr, s => do
      -- the line behind the last one is not searched
      let (t, linePtr, looked) ←
        if t.numItems ≤ s.lineNum then pure (t, some linePtr, .missed)
        else do
          let (t, linePtr) ← t.lineItem prm s.lineNum
          match linePtr with
          | none => pure (t, none, .missed)
          | some p => do
              let x ← t.read p
              pure (t, some p, prm.look I x.text)
      match looked with
      | .found matchLength => pure (t, -1, prm.report I matchLength s)
      | .failed => pure (t, 0, { s with code := .TCL_ERROR })
      | .missed =>
        let s := { s with lineNum := s.lineNum - 1 }
        if s.lineNum < prm.stopIndex then pure (t, -1, { s with code := .TCL_OK })
        else
          let s := if s.lineNum < 0 then { s with lineNum := t.numItems - 1 } else s
          searchBackwards I prm n t linePtr s

/-- The arguments of the search command: the switches, the pattern and the lines. -/
structure SearchArgs where
  exact : SearchMode
  noCase : Bool
  backwards : Bool
  realindex : Bool
  varName : Option Text
  pattern : Text
  index : Int
  stopIndex : Option Int

/-- The pattern that is searched for. -/
def SearchArgs.searched (a : SearchArgs) : Text :=
  if a.exact ≠ .SRCH_EXACT ∧ a.exact ≠ .SRCH_BEGINS then foldCase a.noCase a.pattern else a.pattern

/-- The compiled pattern, if it has to be compiled. -/
def SearchArgs.compiled (I : TclMatch) (a : SearchArgs) : Option (Text → Int) :=
  if a.exact = .SRCH_REGEXP then I.Tcl_RegExpCompile a.searched else some fun _ => 0

/-- The line that a search starts on. -/
def searchIndex (a : SearchArgs) : Int :=
  let index := t.GetTreeTableIndex false a.index
  if index ≥ t.numItems then t.numItems - 1 else index

/-- The line that a search stops on. -/
def searchStop (a : SearchArgs) : Int :=
  match a.stopIndex with
  | some stop =>
    let stopIndex := t.GetTreeTableIndex false stop
    if stopIndex ≥ t.numItems then t.numItems - 1 else stopIndex
  | none => t.numItems - 1

def searchParam (a : SearchArgs) (regexp : Text → Int) : searchParam_t :=
  { pattern := a.searched
    varName := a.varName
    backwards := a.backwards
    exact := a.exact
    noCase := a.noCase
    realindex := a.realindex
    regexp
    index := t.searchIndex a
    stopIndex := t.searchStop a }

/-- The code of the command, and the numbers in its result. -/
def TreeTableSearchCmd (I : TclMatch) (a : SearchArgs) :
    Except Fault (TreeTable × ReturnCode × List Int) :=
  if t.itemPtr.isNone then .ok (t, .TCL_OK, [])
  else
    match a.compiled I with
    | none => .ok (t, .TCL_ERROR, [])
    | some regexp => do
        let prm := t.searchParam a regexp
        let s : SearchState := { lineNum := 0, code := .TCL_OK, result := [] }
        if prm.backwards then do
          let (t, _, s) ← searchBackwards I prm t.fuel t t.itemPtr s
          pure (t, s.code, s.result)
        else do
          let (_, s) ← t.searchForwards I prm t.fuel t.itemPtr s
          pure (t, s.code, s.result)

/-! ### What should be found -/

/-- The complete text matches the pattern. -/
def SearchArgs.Matches (I : TclMatch) (a : SearchArgs) (regexp : Text → Int) (text : Text) : Bool :=
  match a.exact with
  | .SRCH_EXACT => foldCase a.noCase text == foldCase a.noCase a.pattern
  | .SRCH_BEGINS => (foldCase a.noCase a.pattern).isPrefixOf (foldCase a.noCase text)
  | .SRCH_REGEXP =>
    let matchLength := regexp (foldCase a.noCase text)
    matchLength ≠ -1 ∧ matchLength ≠ 0
  | .SRCH_GLOB => I.Tcl_StringMatch (foldCase a.noCase text) (foldCase a.noCase a.pattern)

/-- The text of an item. -/
def text (p : Ptr) : Text := ((t.item p).map TableItem.text).getD []

/-- The line is in the range of the search, and its text matches. -/
def hits (I : TclMatch) (a : SearchArgs) (regexp : Text → Int) (e : Ptr × Int) : Bool :=
  let first := if a.backwards then t.searchStop a else t.searchIndex a
  let last := if a.backwards then t.searchIndex a else t.searchStop a
  decide (first ≤ e.2 ∧ e.2 ≤ last) && a.Matches I regexp (t.text e.1)

/-- The first line in the direction of the search that hits, of the items that are not hidden. -/
def firstHit (I : TclMatch) (a : SearchArgs) (regexp : Text → Int) (f : Forest Ptr) : Option Int :=
  let lines := f.lined t.hidden 0
  let lines := if a.backwards then lines.reverse else lines
  (lines.find? (t.hits I a regexp)).map Prod.snd

/-- The search ends with the line that should be found, if there is one. -/
def SearchesRight (I : TclMatch) (a : SearchArgs) (f : Forest Ptr) : Prop :=
  ∀ regexp, a.compiled I = some regexp →
    ∃ t', t.TreeTableSearchCmd I a = .ok (t', .TCL_OK, (t.firstHit I a regexp f).toList)

variable {t : TreeTable} {I : TclMatch} {a : SearchArgs} {regexp : Text → Int}
  {prm : searchParam_t} {f g : Forest Ptr} {p : Ptr} {x : TableItem} {s : SearchState} {i : Int}
  {n : Nat}

/-! ### One line -/

/-- The look at a text comes out as the match of the complete text. -/
def LooksRight (t : TreeTable) (I : TclMatch) (a : SearchArgs) (regexp : Text → Int) (text : Text) :
    Prop :=
  (t.searchParam a regexp).look I text ≠ .failed ∧
    ((t.searchParam a regexp).look I text ≠ .missed ↔ a.Matches I regexp text = true)

theorem length_foldCase (noCase : Bool) (text : Text) :
    (foldCase noCase text).length = text.length := by
  unfold foldCase
  split
  · exact List.length_map _
  · rfl

/-- A look that is a test. -/
theorem looksRight_of_test {test : Prop} [Decidable test] {text : Text}
    (look : (t.searchParam a regexp).look I text = if test then .found 0 else .missed)
    (same : test ↔ a.Matches I regexp text = true) : LooksRight t I a regexp text := by
  rw [LooksRight, look, ← same]
  by_cases passed : test
  · rw [if_pos passed]
    exact ⟨nofun, iff_of_true nofun passed⟩
  · rw [if_neg passed]
    exact ⟨nofun, iff_of_false (fun ne => ne rfl) passed⟩

theorem looksRight_of_exact (exact : a.exact = .SRCH_EXACT) (text : Text) :
    LooksRight t I a regexp text := by
  have searched : a.searched = a.pattern := by simp [SearchArgs.searched, exact]
  have look : (t.searchParam a regexp).look I text =
      if a.pattern.length = text.length ∧ cmpProc a.noCase text a.pattern a.pattern.length then
        .found 0
      else .missed := by
    simp only [searchParam, searchParam_t.look, exact, searched]
  have whole : (a.pattern.length = text.length ∧
      cmpProc a.noCase text a.pattern a.pattern.length = true) ↔
        a.Matches I regexp text = true := by
    simp only [SearchArgs.Matches, exact, cmpProc, beq_iff_eq]
    constructor
    · rintro ⟨length, same⟩
      rwa [List.take_of_length_le (by rw [length_foldCase, length]),
        List.take_of_length_le (by rw [length_foldCase])] at same
    · intro same
      refine ⟨?_, by rw [same]⟩
      rw [← length_foldCase a.noCase text, same, length_foldCase]
  exact looksRight_of_test look whole

theorem looksRight_of_begins (begins : a.exact = .SRCH_BEGINS) (text : Text) :
    LooksRight t I a regexp text := by
  have searched : a.searched = a.pattern := by simp [SearchArgs.searched, begins]
  have look : (t.searchParam a regexp).look I text =
      if cmpProc a.noCase text a.pattern a.pattern.length then .found 0 else .missed := by
    simp only [searchParam, searchParam_t.look, begins, searched]
  have front : cmpProc a.noCase text a.pattern a.pattern.length = true ↔
      a.Matches I regexp text = true := by
    simp only [SearchArgs.Matches, begins, cmpProc, beq_iff_eq, List.isPrefixOf_iff_prefix,
      List.prefix_iff_eq_take, length_foldCase]
    have all : (foldCase a.noCase a.pattern).take a.pattern.length = foldCase a.noCase a.pattern :=
      List.take_of_length_le (by rw [length_foldCase])
    rw [all]
    exact eq_comm
  exact looksRight_of_test look front

theorem looksRight_of_glob (glob : a.exact = .SRCH_GLOB) (text : Text) :
    LooksRight t I a regexp text := by
  have look : (t.searchParam a regexp).look I text =
      if I.Tcl_StringMatch (foldCase a.noCase text) (foldCase a.noCase a.pattern) then .found 0
      else .missed := by
    simp [searchParam, searchParam_t.look, searchParam_t.line, SearchArgs.searched, glob]
  apply looksRight_of_test look
  rw [SearchArgs.Matches, glob]

/-- In the mode `-regexp` the text is matched without its last character. -/
theorem looksRight_iff_of_regexp (mode : a.exact = .SRCH_REGEXP) (text : Text) :
    LooksRight t I a regexp text ↔
      regexp (foldCase a.noCase text.dropLast) ≠ -1 ∧
        (regexp (foldCase a.noCase text.dropLast) ≠ 0 ↔ a.Matches I regexp text = true) := by
  have look : (t.searchParam a regexp).look I text =
      if regexp (foldCase a.noCase text.dropLast) = -1 then .failed
      else if regexp (foldCase a.noCase text.dropLast) = 0 then .missed
      else .found (regexp (foldCase a.noCase text.dropLast)) := by
    simp [searchParam, searchParam_t.look, searchParam_t.line, mode]
  rw [LooksRight, look]
  split
  · simp [*]
  · split <;> simp [*]

/-! ### Searches forwards -/

/-- The search looks at the line and does not go on. -/
def stops (t : TreeTable) (I : TclMatch) (prm : searchParam_t) (e : Ptr × Int) : Bool :=
  decide (prm.index ≤ e.2 ∧ e.2 ≤ prm.stopIndex) && prm.look I (t.text e.1) ≠ .missed

/-- What a search through the lines `l` comes to, behind which comes the line `last`. -/
structure Searched (t : TreeTable) (I : TclMatch) (prm : searchParam_t) (l : List (Ptr × Int))
    (last : Int) (s : SearchState) (ret : Int) (s' : SearchState) : Prop where
  found : ∀ e m, l.find? (t.stops I prm) = some e → prm.look I (t.text e.1) = .found m →
    ret = -1 ∧ s' = prm.report I m { s with lineNum := e.2 }
  failed : ∀ e, l.find? (t.stops I prm) = some e → prm.look I (t.text e.1) = .failed →
    s'.code = .TCL_ERROR
  missed : l.find? (t.stops I prm) = none → s'.code = s.code ∧ s'.result = s.result ∧
    (ret = 0 ∧ s'.lineNum = last ∨ ret = -1 ∧ prm.stopIndex < s'.lineNum ∧ s'.lineNum ≤ last)

theorem code_report (bad : s.code = .TCL_ERROR) (m : Int) :
    (prm.report I m s).code = .TCL_ERROR := by
  unfold searchParam_t.report
  cases prm.varName with
  | none => exact bad
  | some varName =>
    dsimp only
    split
    · exact bad
    · rfl

theorem nextLine_error {nextPtr : Option Ptr} {goOn : SearchState → Except Fault (Int × SearchState)}
    (behind : ∀ s : SearchState, s.code = .TCL_ERROR →
      ∃ ret s', goOn s = .ok (ret, s') ∧ s'.code = .TCL_ERROR)
    (bad : s.code = .TCL_ERROR) (ret : Int) :
    ∃ ret' s', t.nextLine prm nextPtr goOn ret s = .ok (ret', s') ∧ s'.code = .TCL_ERROR := by
  unfold nextLine
  split
  · exact ⟨_, _, rfl, bad⟩
  split
  · exact ⟨_, _, rfl, bad⟩
  split
  · exact ⟨_, _, rfl, bad⟩
  apply behind
  split
  · exact bad
  · exact bad

/-- A search ends, and an error is not forgotten. -/
theorem forwards_error {owner ptr : Option Ptr} (linked : g.Linked t.links owner ptr)
    (live : ∀ p ∈ g.walk, (t.item p).isSome) (enough : g.size ≤ n) (bad : s.code = .TCL_ERROR) :
    ∃ ret s', t.searchForwards I prm n ptr s = .ok (ret, s') ∧ s'.code = .TCL_ERROR := by
  induction g generalizing n owner ptr s with
  | nil =>
    obtain rfl : ptr = none := linked
    exact ⟨0, s, by cases n <;> rfl, bad⟩
  | node p sub m sub_ih m_ih =>
    obtain ⟨x, n, item, rfl, rfl, enough, below, next, sub_live, m_live⟩ :=
      open_node linked live enough
    rw [searchForwards, read_eq item, Fuel.ok_bind]
    generalize (if s.lineNum < prm.index ∨ prm.stopIndex < s.lineNum then Look.missed
      else prm.look I x.text) = looked
    cases looked with
    | found m => exact ⟨_, _, rfl, code_report bad m⟩
    | failed => exact ⟨_, _, rfl, rfl⟩
    | missed =>
      have inner : ∃ ret s', (if (x.succPtr.isSome && !x.hidden_subtree) = true then
          t.searchForwards I prm n x.succPtr { s with lineNum := s.lineNum + 1 }
        else pure (0, { s with lineNum := s.lineNum + 1 + x.succNum })) = .ok (ret, s') ∧
          s'.code = .TCL_ERROR := by
        split
        · exact sub_ih below sub_live (by omega) bad
        · exact ⟨_, _, rfl, bad⟩
      obtain ⟨ret, s', ran, still⟩ := inner
      dsimp only
      rw [ran, Fuel.ok_bind]
      exact nextLine_error (fun u bad => m_ih next m_live (by omega) bad) still ret

theorem find?_stops_past (past : prm.stopIndex < i) :
    (g.lined t.hidden i).find? (t.stops I prm) = none := by
  rw [List.find?_eq_none]
  rintro ⟨q, line⟩ mem
  have le := (Forest.getElem?_of_mem_lined mem).1
  have out : ¬ (prm.index ≤ line ∧ line ≤ prm.stopIndex) := by omega
  simp [stops, out]

theorem stops_iff {e : Ptr × Int} :
    t.stops I prm e = true ↔
      (prm.index ≤ e.2 ∧ e.2 ≤ prm.stopIndex) ∧ prm.look I (t.text e.1) ≠ .missed := by
  simp [stops]

namespace Searched

variable {l l' : List (Ptr × Int)} {e : Ptr × Int} {last ret : Int} {s' : SearchState}

theorem of_nil (line : s.lineNum = last) : t.Searched I prm [] last s 0 s :=
  ⟨nofun, nofun, fun _ => ⟨rfl, rfl, .inl ⟨rfl, line⟩⟩⟩

/-- A search that stops on a line. -/
theorem of_find? (here : l.find? (t.stops I prm) = some e)
    (found : ∀ m, prm.look I (t.text e.1) = .found m →
      ret = -1 ∧ s' = prm.report I m { s with lineNum := e.2 })
    (failed : prm.look I (t.text e.1) = .failed → s'.code = .TCL_ERROR) :
    t.Searched I prm l last s ret s' := by
  constructor
  · intro e' m there look
    obtain rfl := Option.some.inj (here.symm.trans there)
    exact found m look
  · intro e' there look
    obtain rfl := Option.some.inj (here.symm.trans there)
    exact failed look
  · intro none
    exact nomatch here.symm.trans none

theorem cons (h : t.Searched I prm l last s ret s') (missed : ¬ t.stops I prm e = true) :
    t.Searched I prm (e :: l) last s ret s' := by
  obtain ⟨found, failed, missed'⟩ := h
  rw [← List.find?_cons_of_neg missed] at found failed missed'
  exact ⟨found, failed, missed'⟩

/-- A search that goes on after a first part. -/
theorem append (first : l.find? (t.stops I prm) = none)
    (h : t.Searched I prm l' last s ret s') : t.Searched I prm (l ++ l') last s ret s' := by
  obtain ⟨found, failed, missed⟩ := h
  have rest : (l ++ l').find? (t.stops I prm) = l'.find? (t.stops I prm) := by
    rw [List.find?_append, first, Option.none_or]
  rw [← rest] at found failed missed
  exact ⟨found, failed, missed⟩

/-- A search that is behind its range. -/
theorem of_past (past : prm.stopIndex < i) (ahead : prm.stopIndex < s'.lineNum)
    (le : s'.lineNum ≤ last) (code : s'.code = s.code) (result : s'.result = s.result) :
    t.Searched I prm (g.lined t.hidden i) last s (-1) s' := by
  have nothing := find?_stops_past (t := t) (I := I) (g := g) past
  constructor
  · intro e m found
    exact nomatch found.symm.trans nothing
  · intro e found
    exact nomatch found.symm.trans nothing
  · intro _
    exact ⟨code, result, .inr ⟨rfl, ahead, le⟩⟩

/-- Only the code and the result of the state matter. -/
theorem of_state {u : SearchState} (h : t.Searched I prm l last u ret s') (code : u.code = s.code)
    (result : u.result = s.result) : t.Searched I prm l last s ret s' := by
  have same (k : Int) : { u with lineNum := k } = { s with lineNum := k } := by rw [code, result]
  obtain ⟨found, failed, missed⟩ := h
  refine ⟨?_, failed, ?_⟩
  · intro e m here look
    rw [← same]
    exact found e m here look
  · intro none
    rw [← code, ← result]
    exact missed none

end Searched

/-- The search of an item and its sub tree is continued by that of the rest of the list. -/
theorem nextLine_spec {l : List (Ptr × Int)} {ret : Int} {s' : SearchState} {nextPtr : Option Ptr}
    {goOn : SearchState → Except Fault (Int × SearchState)}
    (h : t.Searched I prm l i s ret s') (last : nextPtr.isNone → g = .nil)
    (inside : nextPtr.isSome → i < t.numItems)
    (behind : ∀ s : SearchState, s.lineNum = i → ∃ ret s', goOn s = .ok (ret, s') ∧
      t.Searched I prm (g.lined t.hidden i) (i + g.size) s ret s')
    (error : ∀ s : SearchState, s.code = .TCL_ERROR →
      ∃ ret s', goOn s = .ok (ret, s') ∧ s'.code = .TCL_ERROR) :
    ∃ ret' s'', t.nextLine prm nextPtr goOn ret s' = .ok (ret', s'') ∧
      t.Searched I prm (l ++ g.lined t.hidden i) (i + g.size) s ret' s'' := by
  cases first : l.find? (t.stops I prm) with
  | some e =>
    have both : (l ++ g.lined t.hidden i).find? (t.stops I prm) = some e := by
      rw [List.find?_append, first, Option.some_or]
    cases looked : prm.look I (t.text e.1) with
    | found k =>
      obtain ⟨rfl, reported⟩ := h.found e k first looked
      refine ⟨-1, s', if_pos (by decide), .of_find? both ?_ ?_⟩
      · intro k' look
        obtain rfl := Look.found.inj (looked.symm.trans look)
        exact ⟨rfl, reported⟩
      · intro look
        exact nomatch looked.symm.trans look
    | failed =>
      obtain ⟨ret', s'', ran, bad⟩ := nextLine_error error (h.failed e first looked) ret
      refine ⟨ret', s'', ran, .of_find? both ?_ fun _ => bad⟩
      intro k look
      exact nomatch looked.symm.trans look
    | missed => exact absurd looked (stops_iff.mp (List.find?_some first)).2
  | none =>
    obtain ⟨code, result, ⟨rfl, line⟩ | ⟨rfl, past, le⟩⟩ := h.missed first
    · rw [nextLine, if_neg (Int.lt_irrefl 0)]
      cases next : nextPtr with
      | none =>
        rw [next] at last
        rw [if_pos Option.isNone_none, last rfl]
        refine ⟨0, s', rfl, .append first ((Searched.of_nil ?_).of_state code result)⟩
        rw [line, Forest.size_nil, Int.natCast_zero, Int.add_zero]
      | some q =>
        rw [next] at inside
        have before := inside rfl
        rw [if_neg (by simp)]
        by_cases past : prm.stopIndex < s'.lineNum
        · rw [if_pos past]
          rw [line] at past
          refine ⟨-1, s', rfl, .append first (.of_past past ?_ ?_ code result)⟩
          · rwa [line]
          · omega
        · rw [if_neg past, if_neg (by omega)]
          obtain ⟨ret', s'', ran, searched⟩ := behind s' line
          exact ⟨ret', s'', ran, .append first (searched.of_state code result)⟩
    · exact ⟨-1, s', if_pos (by decide),
        .append first (.of_past (by omega) past (by omega) code result)⟩

theorem forwards_spec (I : TclMatch) (prm : searchParam_t) {owner ptr : Option Ptr} (linked : g.Linked t.links owner ptr)
    (live : ∀ p ∈ g.walk, (t.item p).isSome) (counted : g.Counted t.counts) (enough : g.size ≤ n)
    (line : s.lineNum = i) (inside : i + g.size ≤ t.numItems) :
    ∃ ret s', t.searchForwards I prm n ptr s = .ok (ret, s') ∧
      t.Searched I prm (g.lined t.hidden i) (i + g.size) s ret s' := by
  induction g generalizing n owner ptr i s with
  | nil =>
    obtain rfl : ptr = none := linked
    refine ⟨0, s, by cases n <;> rfl, .of_nil ?_⟩
    rw [line, Forest.size_nil]
    omega
  | node p sub m sub_ih m_ih =>
    obtain ⟨x, n, item, rfl, rfl, enough, below, next, sub_live, m_live⟩ :=
      open_node linked live enough
    obtain ⟨all, -, sub_counted, m_counted⟩ := counted
    have shut : t.hidden p = x.hidden_subtree := hidden_eq item
    have text : t.text p = x.text := by rw [TreeTable.text, item]; rfl
    rw [counts_all item] at all
    rw [Forest.size_node] at inside ⊢
    rw [searchForwards, read_eq item, Fuel.ok_bind, line, Forest.lined]
    by_cases here : t.stops I prm (p, i) = true
    · have first (l : List (Ptr × Int)) : ((p, i) :: l).find? (t.stops I prm) = some (p, i) :=
        List.find?_cons_of_pos here
      obtain ⟨range, look⟩ := stops_iff.mp here
      rw [if_neg (by omega), ← text]
      cases looked : prm.look I (t.text p) with
      | found k =>
        refine ⟨_, _, rfl, .of_find? (first _) ?_ ?_⟩
        · intro k' look'
          obtain rfl := Look.found.inj (looked.symm.trans look')
          exact ⟨rfl, by rw [← line]⟩
        · intro look'
          cases looked.symm.trans look'
      | failed =>
        refine ⟨_, _, rfl, .of_find? (first _) ?_ fun _ => rfl⟩
        intro k look'
        cases looked.symm.trans look'
      | missed => exact absurd looked look
    have looked : (if i < prm.index ∨ prm.stopIndex < i then Look.missed
        else prm.look I x.text) = .missed := by
      split
      · rfl
      · by_contra look
        exact here (stops_iff.mpr ⟨by omega, by rw [text]; exact look⟩)
    rw [looked]
    dsimp only
    -- the sub tree
    obtain ⟨ret, s₂, ran, inner⟩ : ∃ ret s₂,
        (if (x.succPtr.isSome && !x.hidden_subtree) = true then
          t.searchForwards I prm n x.succPtr { s with lineNum := i + 1 }
        else pure (0, { s with lineNum := i + 1 + x.succNum })) = .ok (ret, s₂) ∧
        t.Searched I prm (if t.hidden p then [] else sub.lined t.hidden (i + 1))
          (i + 1 + sub.size) s ret s₂ := by
      by_cases walked : (x.succPtr.isSome && !x.hidden_subtree) = true
      · obtain ⟨-, open_⟩ := Bool.and_eq_true_iff.mp walked
        rw [if_pos walked, shut, if_neg (by simpa using open_)]
        obtain ⟨ret, s₂, ran, searched⟩ := sub_ih (n := n) (i := i + 1)
          (s := { s with lineNum := i + 1 }) below sub_live sub_counted (by omega) rfl (by omega)
        exact ⟨ret, s₂, ran, searched.of_state rfl rfl⟩
      · have none_seen : (if t.hidden p then [] else sub.lined t.hidden (i + 1)) = [] := by
          split
          · rfl
          · rename_i open_
            have leaf : sub = .nil := by
              by_contra some_sub
              rw [shut, Bool.not_eq_true] at open_
              rw [below.isSome_iff.mpr some_sub, open_] at walked
              exact walked rfl
            rw [leaf]
            rfl
        rw [if_neg walked, none_seen, all]
        exact ⟨_, _, rfl,
          Searched.of_state (u := { s with lineNum := i + 1 + sub.size }) (.of_nil rfl) rfl rfl⟩
    rw [ran, Fuel.ok_bind]
    -- what comes behind it
    have last : i + ((1 + sub.size + m.size : Nat) : Int) = i + 1 + sub.size + m.size := by
      push_cast
      omega
    have no_next : x.nextPtr.isNone → m = .nil := by
      intro none_next
      by_contra some_rest
      rw [Option.isNone_iff_eq_none.mp none_next] at next
      cases next.isSome_iff.mpr some_rest
    have some_next : x.nextPtr.isSome → i + 1 + sub.size < t.numItems := by
      intro some_next
      have pos : m.size ≠ 0 := fun zero =>
        next.isSome_iff.mp some_next (Forest.eq_nil_of_size zero)
      omega
    obtain ⟨ret', s', ran', searched⟩ := nextLine_spec inner no_next some_next
      (fun u line => m_ih (n := n) next m_live m_counted (by omega) line (by omega))
      (fun u bad => forwards_error next m_live (by omega) bad)
    rw [last]
    exact ⟨ret', s', ran', searched.cons here⟩

/-! ### The command -/

/-- Two tests find the same element of a list, which meets a condition if there is one, if and only
if they agree up to the first element that passes the second test. -/
theorem find?_agree_iff {α : Type} {p q : α → Bool} {P : α → Prop} {l : List α} (nodup : l.Nodup) :
    (l.find? p = l.find? q ∧ ∀ e, l.find? p = some e → P e) ↔
      ∀ l₁ e l₂, l = l₁ ++ e :: l₂ → (∀ e' ∈ l₁, q e' = false) →
        p e = q e ∧ (p e = true → P e) := by
  induction l with
  | nil => exact iff_of_true ⟨rfl, nofun⟩ fun l₁ e l₂ eq => by simp at eq
  | cons a l ih =>
    obtain ⟨new, nodup⟩ := List.nodup_cons.mp nodup
    have ih := ih nodup
    constructor
    · rintro ⟨same, meets⟩ l₁ e l₂ eq early
      have head : p a = q a := by
        cases p_a : p a <;> cases q_a : q a
        · rfl
        · rw [List.find?_cons_of_neg (by simp [p_a]), List.find?_cons_of_pos q_a] at same
          exact absurd (List.mem_of_find?_eq_some same) new
        · rw [List.find?_cons_of_pos p_a, List.find?_cons_of_neg (by simp [q_a])] at same
          exact absurd (List.mem_of_find?_eq_some same.symm) new
        · rfl
      cases l₁ with
      | nil =>
        obtain ⟨rfl, rfl⟩ := List.cons.inj eq
        exact ⟨head, fun passed => meets _ (List.find?_cons_of_pos passed)⟩
      | cons b l₁ =>
        obtain ⟨rfl, rfl⟩ := List.cons.inj eq
        have q_a : ¬ q a = true := by simp [early a List.mem_cons_self]
        have p_a : ¬ p a = true := by rwa [head]
        rw [List.find?_cons_of_neg p_a, List.find?_cons_of_neg q_a] at same
        rw [List.find?_cons_of_neg p_a] at meets
        exact ih.mp ⟨same, meets⟩ l₁ e l₂ rfl fun e' mem =>
          early e' (List.mem_cons_of_mem a mem)
    · intro agree
      obtain ⟨head, meets⟩ := agree [] a l rfl (fun e' mem => absurd mem List.not_mem_nil)
      by_cases p_a : p a = true
      · have q_a : q a = true := head ▸ p_a
        rw [List.find?_cons_of_pos p_a, List.find?_cons_of_pos q_a]
        refine ⟨rfl, fun e eq => ?_⟩
        obtain rfl := Option.some.inj eq
        exact meets p_a
      · have q_a : ¬ q a = true := head ▸ p_a
        rw [List.find?_cons_of_neg p_a, List.find?_cons_of_neg q_a]
        refine ih.mpr fun l₁ e l₂ eq early => agree (a :: l₁) e l₂ (by rw [eq]; rfl) ?_
        intro e' mem
        rcases List.mem_cons.mp mem with rfl | mem
        · simpa using q_a
        · exact early e' mem

/-- The look at a text comes out as the match of the complete text, which it does in all modes but
`-regexp`. -/
theorem looksRight_iff (text : Text) :
    LooksRight t I a regexp text ↔
      (a.exact = .SRCH_REGEXP →
        regexp (foldCase a.noCase text.dropLast) ≠ -1 ∧
          (regexp (foldCase a.noCase text.dropLast) ≠ 0 ↔ a.Matches I regexp text = true)) := by
  cases mode : a.exact with
  | SRCH_EXACT => exact iff_of_true (looksRight_of_exact mode text) nofun
  | SRCH_GLOB => exact iff_of_true (looksRight_of_glob mode text) nofun
  | SRCH_REGEXP => simpa using looksRight_iff_of_regexp mode text
  | SRCH_BEGINS => exact iff_of_true (looksRight_of_begins mode text) nofun

/-- Up to the first line that hits, every text of the range comes out with and without its last
character as the same, in the mode `-regexp`. -/
def ForwardsRight (t : TreeTable) (I : TclMatch) (a : SearchArgs) (regexp : Text → Int)
    (f : Forest Ptr) : Prop :=
  a.exact = .SRCH_REGEXP → ∀ l e l', f.lined t.hidden 0 = l ++ e :: l' →
    (∀ e' ∈ l, t.hits I a regexp e' = false) → t.searchIndex a ≤ e.2 → e.2 ≤ t.searchStop a →
      regexp (foldCase a.noCase (t.text e.1).dropLast) ≠ -1 ∧
        (regexp (foldCase a.noCase (t.text e.1).dropLast) ≠ 0 ↔
          a.Matches I regexp (t.text e.1) = true)

/-- No line of the range behind the first one hits, and the first one is found if and only if the
search stops on it and it matches. -/
def BackwardsRight (t : TreeTable) (I : TclMatch) (a : SearchArgs) (regexp : Text → Int)
    (f : Forest Ptr) : Prop :=
  (∀ e ∈ f.lined t.hidden 0, t.hits I a regexp e = true → e.2 = 0) ∧
    ∀ p, t.itemPtr = some p →
      (t.searchParam a regexp).look I (t.text p) ≠ .failed ∧
        ((t.searchParam a regexp).look I (t.text p) ≠ .missed ↔
          t.searchStop a = 0 ∧ a.Matches I regexp (t.text p) = true)

theorem stops_hits_iff (forwards : a.backwards = false) (e : Ptr × Int) :
    (t.stops I (t.searchParam a regexp) e = t.hits I a regexp e ∧
      (t.stops I (t.searchParam a regexp) e = true →
        (t.searchParam a regexp).look I (t.text e.1) ≠ .failed)) ↔
      (t.searchIndex a ≤ e.2 → e.2 ≤ t.searchStop a → LooksRight t I a regexp (t.text e.1)) := by
  have hits : t.hits I a regexp e =
      (decide (t.searchIndex a ≤ e.2 ∧ e.2 ≤ t.searchStop a) &&
        a.Matches I regexp (t.text e.1)) := by
    simp [TreeTable.hits, forwards]
  have stops : t.stops I (t.searchParam a regexp) e =
      (decide (t.searchIndex a ≤ e.2 ∧ e.2 ≤ t.searchStop a) &&
        decide ((t.searchParam a regexp).look I (t.text e.1) ≠ .missed)) := rfl
  by_cases range : t.searchIndex a ≤ e.2 ∧ e.2 ≤ t.searchStop a
  · rw [decide_eq_true range, Bool.true_and] at hits stops
    rw [hits, stops, decide_eq_true_iff, LooksRight, Bool.eq_iff_iff, decide_eq_true_iff]
    constructor
    · rintro ⟨same, fine⟩ _ _
      refine ⟨?_, same⟩
      intro failed
      exact fine (by rw [failed]; exact nofun) failed
    · intro right
      obtain ⟨fine, same⟩ := right range.1 range.2
      exact ⟨same, fun _ => fine⟩
  · rw [decide_eq_false range, Bool.false_and] at hits stops
    rw [hits, stops]
    exact iff_of_true ⟨rfl, nofun⟩ fun first last => absurd ⟨first, last⟩ range

theorem nodup_lined (shut : Ptr → Bool) (f : Forest Ptr) (i : Int) : (f.lined shut i).Nodup :=
  (Forest.lined_pairwise shut f i).imp fun less same => by
    rw [same] at less
    exact Int.lt_irrefl _ less

/-- Two tests find the same line if and only if they find the same item. -/
theorem lines_found_eq_iff {shut : Ptr → Bool} {p q : Ptr × Int → Bool} :
    (((f.lined shut 0).find? p).map Prod.snd).toList =
        (((f.lined shut 0).find? q).map Prod.snd).toList ↔
      (f.lined shut 0).find? p = (f.lined shut 0).find? q := by
  constructor
  · intro same
    cases there : (f.lined shut 0).find? q with
    | none =>
      rw [there] at same
      cases here : (f.lined shut 0).find? p with
      | none => rfl
      | some e =>
        rw [here] at same
        cases same
    | some e' =>
      rw [there] at same
      cases here : (f.lined shut 0).find? p with
      | none =>
        rw [here] at same
        cases same
      | some e =>
        rw [here] at same
        have line : e.2 = e'.2 := List.head_eq_of_cons_eq same
        rw [Forest.eq_of_line (List.mem_of_find?_eq_some here)
          (List.mem_of_find?_eq_some there) line]
  · intro same
    rw [same]

/-- What a search forwards answers. -/
theorem forwards_answer (h : Shape t f) (forwards : a.backwards = false) (plain : a.varName = none)
    (compiled : a.compiled I = some regexp) (some_item : t.itemPtr.isSome) :
    ∃ code result, t.TreeTableSearchCmd I a = .ok (t, code, result) ∧
      ((∀ e, (f.lined t.hidden 0).find? (t.stops I (t.searchParam a regexp)) = some e →
          (t.searchParam a regexp).look I (t.text e.1) ≠ .failed) → code = .TCL_OK ∧
        result = (((f.lined t.hidden 0).find? (t.stops I (t.searchParam a regexp))).map
          Prod.snd).toList) ∧
      (code = .TCL_OK →
        ∀ e, (f.lined t.hidden 0).find? (t.stops I (t.searchParam a regexp)) = some e →
          (t.searchParam a regexp).look I (t.text e.1) ≠ .failed) := by
  obtain ⟨ret, s', ran, searched⟩ := forwards_spec I (t.searchParam a regexp) (i := 0)
    (s := { lineNum := 0, code := .TCL_OK, result := [] }) h.linked (fun q mem => h.isSome mem)
    h.counted (Nat.le_of_lt h.size_lt_fuel) rfl (by rw [h.numItems]; omega)
  refine ⟨s'.code, s'.result, ?_, ?_, ?_⟩
  · have some_item' : ¬ t.itemPtr.isNone = true := by
      rw [Option.isNone_iff_eq_none]
      exact Option.isSome_iff_ne_none.mp some_item
    have backwards : ¬ (t.searchParam a regexp).backwards = true := by
      change ¬ a.backwards = true
      rw [forwards]
      exact Bool.false_ne_true
    rw [TreeTableSearchCmd, if_neg some_item', compiled]
    dsimp only
    rw [if_neg backwards, ran]
    rfl
  · intro fine
    cases first : (f.lined t.hidden 0).find? (t.stops I (t.searchParam a regexp)) with
    | none =>
      obtain ⟨code, result, -⟩ := searched.missed first
      exact ⟨code, result⟩
    | some e =>
      cases look : (t.searchParam a regexp).look I (t.text e.1) with
      | failed => exact absurd look (fine e first)
      | missed => exact absurd look (stops_iff.mp (List.find?_some first)).2
      | found k =>
        obtain ⟨-, reported⟩ := searched.found e k first look
        have no_count : (t.searchParam a regexp).varName = none := plain
        rw [reported, searchParam_t.report, no_count]
        exact ⟨rfl, rfl⟩
  · intro code e first failed
    exact nomatch code.symm.trans (searched.failed e first failed)

theorem forwards_right_iff (h : Shape t f) (forwards : a.backwards = false)
    (plain : a.varName = none) (compiled : a.compiled I = some regexp)
    (some_item : t.itemPtr.isSome) :
    (∃ t', t.TreeTableSearchCmd I a =
      .ok (t', .TCL_OK, (t.firstHit I a regexp f).toList)) ↔ t.ForwardsRight I a regexp f := by
  obtain ⟨code, result, command, right, fine⟩ :=
    forwards_answer h forwards plain compiled some_item
  have hit : t.firstHit I a regexp f =
      ((f.lined t.hidden 0).find? (t.hits I a regexp)).map Prod.snd := by
    rw [firstHit, forwards, if_neg Bool.false_ne_true]
  have agree : t.ForwardsRight I a regexp f ↔
      (f.lined t.hidden 0).find? (t.stops I (t.searchParam a regexp)) =
        (f.lined t.hidden 0).find? (t.hits I a regexp) ∧
      ∀ e, (f.lined t.hidden 0).find? (t.stops I (t.searchParam a regexp)) = some e →
        (t.searchParam a regexp).look I (t.text e.1) ≠ .failed := by
    rw [find?_agree_iff (nodup_lined _ _ _)]
    constructor
    · intro right l e l' eq early
      refine (stops_hits_iff forwards e).mpr fun first last => (looksRight_iff _).mpr ?_
      intro mode
      exact right mode l e l' eq early first last
    · intro right mode l e l' eq early first last
      exact (looksRight_iff _).mp
        ((stops_hits_iff forwards e).mp (right l e l' eq early) first last) mode
  rw [agree, hit, command]
  constructor
  · rintro ⟨t', eq⟩
    obtain ⟨-, same⟩ := Prod.mk.inj (Except.ok.inj eq)
    obtain ⟨rfl, rfl⟩ := Prod.mk.inj same
    exact ⟨(lines_found_eq_iff.mp (right (fine rfl)).2).symm, fine rfl⟩
  · rintro ⟨same, fine⟩
    obtain ⟨rfl, rfl⟩ := right fine
    exact ⟨t, by rw [same]⟩

/-! ### Searches backwards -/

theorem GetTreeTableIndex_nonneg (k : Int) : 0 ≤ t.GetTreeTableIndex false k := by
  unfold GetTreeTableIndex
  dsimp only
  rw [if_neg Bool.false_ne_true]
  generalize (if k ≥ t.numItems then t.numItems - 1 else k) = index
  split
  · exact Int.le_refl 0
  split
  · exact Int.le_refl 0
  · omega

theorem searchIndex_nonneg (some_items : 0 < t.numItems) : 0 ≤ t.searchIndex a := by
  have := t.GetTreeTableIndex_nonneg a.index
  unfold searchIndex
  dsimp only
  split
  · omega
  · exact this

theorem searchStop_nonneg (some_items : 0 < t.numItems) : 0 ≤ t.searchStop a := by
  unfold searchStop
  split
  · rename_i stop _
    have := t.GetTreeTableIndex_nonneg stop
    dsimp only
    split
    · omega
    · exact this
  · omega

/-- What a search backwards answers: it looks at the first item only. -/
theorem backwards_answer (h : Shape t f) (backwards : a.backwards = true) (plain : a.varName = none)
    (virtual : a.realindex = false) (compiled : a.compiled I = some regexp)
    (first : t.itemPtr = some p) :
    ∃ code result, t.TreeTableSearchCmd I a = .ok (t, code, result) ∧
      ((t.searchParam a regexp).look I (t.text p) = .failed → code = .TCL_ERROR) ∧
      ((t.searchParam a regexp).look I (t.text p) = .missed → code = .TCL_OK ∧ result = []) ∧
      (∀ k, (t.searchParam a regexp).look I (t.text p) = .found k →
        code = .TCL_OK ∧ result = [0]) := by
  obtain ⟨sub, m, rfl⟩ : ∃ sub m, f = .node p sub m := by
    cases f with
    | nil =>
      have none_first : t.itemPtr = none := h.linked
      cases first.symm.trans none_first
    | node q sub m =>
      have some_first : t.itemPtr = some q := h.linked.1
      exact ⟨sub, m, by rw [Option.some.inj (some_first.symm.trans first)]⟩
  obtain ⟨x, item⟩ := Option.isSome_iff_exists.mp (h.isSome List.mem_cons_self)
  have text : t.text p = x.text := by
    rw [TreeTable.text, item]
    rfl
  have some_items : 0 < t.numItems := by
    rw [h.numItems, Forest.size_node]
    omega
  have stop := t.searchStop_nonneg (a := a) some_items
  have reads : t.lineItem (t.searchParam a regexp) 0 = .ok (t, some p) := by
    have real : ¬ (t.searchParam a regexp).realindex = true := by
      change ¬ a.realindex = true
      rw [virtual]
      exact Bool.false_ne_true
    rw [lineItem, if_neg real, TreeTableFindNotHiddenItem, if_neg (Int.lt_irrefl 0), first, fuel,
      TreeTableFindNotHiddenItem_x, if_pos (Int.le_refl 0)]
    rfl
  have ran : ∃ ret s', searchBackwards I (t.searchParam a regexp) t.fuel t (some p)
      { lineNum := 0, code := .TCL_OK, result := [] } = .ok (t, ret, s') ∧
      ((t.searchParam a regexp).look I (t.text p) = .failed → s'.code = .TCL_ERROR) ∧
      ((t.searchParam a regexp).look I (t.text p) = .missed → s'.code = .TCL_OK ∧ s'.result = []) ∧
      (∀ k, (t.searchParam a regexp).look I (t.text p) = .found k →
        s'.code = .TCL_OK ∧ s'.result = [0]) := by
    rw [fuel, searchBackwards]
    dsimp only
    rw [if_neg (by omega), reads, Fuel.ok_bind]
    dsimp only
    rw [read_eq item, Fuel.ok_bind, text]
    cases (t.searchParam a regexp).look I x.text with
    | found k =>
      refine ⟨_, _, rfl, (fun h => by cases h), (fun h => by cases h), ?_⟩
      intro k' _
      have no_count : (t.searchParam a regexp).varName = none := plain
      rw [searchParam_t.report, no_count]
      exact ⟨rfl, rfl⟩
    | missed =>
      have before : 0 - 1 < (t.searchParam a regexp).stopIndex := by
        change 0 - 1 < t.searchStop a
        omega
      refine ⟨_, _, if_pos before, (fun h => by cases h), fun _ => ⟨rfl, rfl⟩,
        fun _ h => by cases h⟩
    | failed => exact ⟨_, _, rfl, fun _ => rfl, (fun h => by cases h), fun _ h => by cases h⟩
  obtain ⟨ret, s', ran, failed, missed, found⟩ := ran
  refine ⟨s'.code, s'.result, ?_, failed, missed, found⟩
  have some_item : ¬ t.itemPtr.isNone = true := by
    rw [first]
    exact Bool.false_ne_true
  have back : (t.searchParam a regexp).backwards = true := backwards
  rw [TreeTableSearchCmd, if_neg some_item, compiled]
  dsimp only
  rw [if_pos back, first, ran]
  rfl

/-- The last line that hits is not before any other one. -/
theorem le_of_find?_reverse {shut : Ptr → Bool} {q : Ptr × Int → Bool} {e e' : Ptr × Int}
    (last : (f.lined shut 0).reverse.find? q = some e) (mem : e' ∈ f.lined shut 0)
    (hit : q e' = true) : e'.2 ≤ e.2 := by
  obtain ⟨-, as, bs, eq, missed⟩ := List.find?_eq_some_iff_append.mp last
  have mem' : e' ∈ as ++ e :: bs := by
    rw [← eq]
    exact List.mem_reverse.mpr mem
  have ordered : (as ++ e :: bs).Pairwise fun a b => b.2 < a.2 := by
    rw [← eq]
    exact List.pairwise_reverse.mpr (Forest.lined_pairwise shut f 0)
  rcases List.mem_append.mp mem' with early | late
  · have := missed e' early
    rw [hit] at this
    cases this
  rcases List.mem_cons.mp late with rfl | behind
  · exact Int.le_refl _
  · have := (List.pairwise_cons.mp (List.pairwise_append.mp ordered).2.1).1 e' behind
    omega

theorem backwards_right_iff (h : Shape t f) (backwards : a.backwards = true)
    (plain : a.varName = none) (virtual : a.realindex = false) (compiled : a.compiled I = some regexp)
    (first : t.itemPtr = some p) :
    (∃ t', t.TreeTableSearchCmd I a =
      .ok (t', .TCL_OK, (t.firstHit I a regexp f).toList)) ↔ t.BackwardsRight I a regexp f := by
  obtain ⟨code, result, command, failed, missed, found⟩ :=
    backwards_answer h backwards plain virtual compiled first
  have hit : t.firstHit I a regexp f =
      ((f.lined t.hidden 0).reverse.find? (t.hits I a regexp)).map Prod.snd := by
    rw [firstHit, backwards, if_pos rfl]
  have first_line : (p, 0) ∈ f.lined t.hidden 0 := by
    cases f with
    | nil =>
      have none_first : t.itemPtr = none := h.linked
      exact nomatch first.symm.trans none_first
    | node q sub m =>
      have some_first : t.itemPtr = some q := h.linked.1
      rw [Option.some.inj (first.symm.trans some_first)]
      exact List.mem_cons_self
  have nonneg : ∀ e ∈ f.lined t.hidden 0, 0 ≤ e.2 := fun e mem =>
    (Forest.getElem?_of_mem_lined mem).1
  have some_items : 0 < t.numItems := by
    have inside := Forest.line_lt_of_mem_lined first_line
    rw [h.numItems]
    omega
  have hits_first : t.hits I a regexp (p, 0) = true ↔
      t.searchStop a = 0 ∧ a.Matches I regexp (t.text p) = true := by
    have index := t.searchIndex_nonneg (a := a) some_items
    have stop := t.searchStop_nonneg (a := a) some_items
    rw [hits, backwards, if_pos rfl, if_pos rfl, Bool.and_eq_true, decide_eq_true_iff]
    exact and_congr_left fun _ => ⟨fun range => by omega, fun zero => by omega⟩
  have at_first : ∀ e ∈ f.lined t.hidden 0, e.2 = 0 → e = (p, 0) := fun e mem zero =>
    Forest.eq_of_line mem first_line zero
  rw [hit, command, BackwardsRight]
  constructor
  · rintro ⟨t', eq⟩
    obtain ⟨-, same⟩ := Prod.mk.inj (Except.ok.inj eq)
    obtain ⟨rfl, rfl⟩ := Prod.mk.inj same
    have hits_of_last (e : Ptr × Int)
        (last : (f.lined t.hidden 0).reverse.find? (t.hits I a regexp) = some e) :
        e ∈ f.lined t.hidden 0 ∧ t.hits I a regexp e = true :=
      ⟨List.mem_reverse.mp (List.mem_of_find?_eq_some last), List.find?_some last⟩
    cases look : (t.searchParam a regexp).look I (t.text p) with
    | failed => exact nomatch failed look
    | missed =>
      have empty := (missed look).2
      have none_found : (f.lined t.hidden 0).reverse.find? (t.hits I a regexp) = none := by
        cases last : (f.lined t.hidden 0).reverse.find? (t.hits I a regexp) with
        | none => rfl
        | some e =>
          rw [last] at empty
          cases empty
      have no_hit : ∀ e ∈ f.lined t.hidden 0, ¬ t.hits I a regexp e = true := fun e mem =>
        List.find?_eq_none.mp none_found e (List.mem_reverse.mpr mem)
      refine ⟨fun e mem hit => absurd hit (no_hit e mem), fun q some_first => ?_⟩
      obtain rfl := Option.some.inj (first.symm.trans some_first)
      rw [look]
      exact ⟨nofun, iff_of_false (fun ne => ne rfl) fun both =>
        no_hit _ first_line (hits_first.mpr both)⟩
    | found k =>
      have zero := (found k look).2
      cases last : (f.lined t.hidden 0).reverse.find? (t.hits I a regexp) with
      | none =>
        rw [last] at zero
        cases zero
      | some e =>
        rw [last] at zero
        have line : e.2 = 0 := List.head_eq_of_cons_eq zero
        obtain ⟨mem, hit⟩ := hits_of_last e last
        refine ⟨?_, fun q some_first => ?_⟩
        · intro e' mem' hit'
          have := le_of_find?_reverse last mem' hit'
          have := nonneg e' mem'
          omega
        · obtain rfl := Option.some.inj (first.symm.trans some_first)
          rw [at_first e mem line] at hit
          rw [look]
          exact ⟨nofun, iff_of_true nofun (hits_first.mp hit)⟩
  · rintro ⟨front, right⟩
    obtain ⟨fine, same⟩ := right p first
    refine ⟨t, ?_⟩
    cases look : (t.searchParam a regexp).look I (t.text p) with
    | failed => exact absurd look fine
    | missed =>
      obtain ⟨rfl, rfl⟩ := missed look
      have no_hit : ¬ t.hits I a regexp (p, 0) = true := fun hit =>
        same.mpr (hits_first.mp hit) look
      have none_found : (f.lined t.hidden 0).reverse.find? (t.hits I a regexp) = none := by
        rw [List.find?_eq_none]
        intro e mem hit
        rw [List.mem_reverse] at mem
        rw [at_first e mem (front e mem hit)] at hit
        exact no_hit hit
      rw [none_found]
      rfl
    | found k =>
      obtain ⟨rfl, rfl⟩ := found k look
      have hit := hits_first.mpr (same.mp (by rw [look]; exact nofun))
      cases last : (f.lined t.hidden 0).reverse.find? (t.hits I a regexp) with
      | none =>
        rw [List.find?_eq_none] at last
        exact absurd hit (last _ (List.mem_reverse.mpr first_line))
      | some e =>
        have zero := front e (List.mem_reverse.mp (List.mem_of_find?_eq_some last))
          (List.find?_some last)
        rw [Option.map_some, zero]
        rfl

/-- Functions of Tcl for patterns that are looked for exactly. -/
def noPatterns : TclMatch :=
  { Tcl_StringMatch := fun text pattern => text == pattern
    Tcl_RegExpCompile := fun _ => none
    Tcl_SetVar := fun _ _ => true }

/-- `search -exact -- a 1 2` -/
def forwardsArgs : SearchArgs :=
  { exact := .SRCH_EXACT, noCase := false, backwards := false, realindex := false, varName := none,
    pattern := ascii "a", index := 1, stopIndex := some 2 }

/-- `search -exact -backwards -- a 2 1` -/
def backwardsArgs : SearchArgs :=
  { forwardsArgs with backwards := true, index := 2, stopIndex := some 1 }

end TreeTable

end SourceNavigator.Hyper
