import SourceNavigator.Cpp.Ifstack
import Mathlib.Tactic.ByContra

/-!
The queries of the second pass (`Paf_insert_cross_ref_qry` in
`cpp/cpplib/cp_crossref.c`) on one file.

A query goes on in the tokens of the file where the last one stopped, up to the
token at its start, and leaves the file open unless the function body does not
end where it should. A query that does not find its start has read the whole
file, and no later query finds anything. `queries_independent_iff` says when
every query for a token of the file is processed.

The token window is an array of all tokens here; `window_transparent_iff` is about
the window.
-/

namespace SourceNavigator.Cpp.Query

/-- A token of the lexer; `last` for the last one of those that a call of `yylex` delivers, which are
more than one where a macro is replaced. -/
structure Delivered where
  read : Read
  last : Bool

/-- What is delivered after the file has been opened: its tokens, and then the end of the file for ever,
`eof i` as token number `i`. -/
structure File where
  tokens : List Delivered
  eof : Nat → Token
  delivers : ∀ d ∈ tokens, d.read.token.lex ≠ 0
  ends : ∀ i, (eof i).lex = 0

/-- The variables of `f_read`, with `last` for `TokenAct == TokenEnd` or no `TokenAll`. -/
structure Lexer where
  filter : Filter
  v : Nat → ZZSTYPE
  ivt : Nat
  last : Bool
  eof : Nat → Token

/-- Tokens are read until the one at `place` is stored. -/
def f_read (place : Nat) : List Delivered → Lexer → Except Fault (Lexer × List Delivered)
  | [], s =>
    if s.ivt ≤ place then
      .ok ({ s with v := fun i => if s.ivt ≤ i then (s.eof i).toZZ else s.v i, ivt := place + 1, last := true }, [])
    else .ok (s, [])
  | d :: ds, s =>
    if s.ivt ≤ place then do
      let (filter, z) ← s.filter.readToken d.read
      let v := (z.map (Function.update s.v s.ivt)).getD s.v
      f_read place ds { s with filter, v, ivt := s.ivt + z.toList.length, last := d.last }
    else .ok (s, d :: ds)

/-- What is left of the tokens of the last call of `yylex` is thrown away. -/
def f_read_end (rest : List Delivered) (s : Lexer) : Lexer × List Delivered :=
  if s.last then (s, rest) else ({ s with last := true }, (rest.dropWhile fun d => !d.last).tail)

/-- The static variables of the second pass: `current` when `filename_g` is the file of the queries,
which has been opened `opened` times. `stale` is the slot in front of the first one. -/
structure Scan where
  current : Bool
  opened : Nat
  keyw_cpp : Bool
  lexer : Lexer
  rest : List Delivered
  iva : Nat
  stale : ZZSTYPE

/-- The macros `token`, `f_lineno` and `f_charno`: the slot at a place. -/
def slot (place : Int) (s : Scan) : Except Fault (Scan × ZZSTYPE) :=
  if place < 0 then .ok (s, s.stale)
  else do
    let (lexer, rest) ← f_read place.toNat s.rest s.lexer
    return ({ s with lexer, rest }, lexer.v place.toNat)

/-- The macro `token`. -/
def token (keyw_cpp : Bool) (z : ZZSTYPE) : Nat := if keyw_cpp then z.yytoken_cpp else z.yytoken

/-- What `f_CompoundStatement` does with the tokens: it reads slots and moves, and goes on according to
what it has read. -/
inductive Body
  | done
  | slot (i : Int) (next : ZZSTYPE → Body)
  | step (i : Int) (next : Body)

def Body.run : Body → Scan → Except Fault Scan
  | .done, s => .ok s
  | .slot i next, s => do
      let (s, z) ← Query.slot (s.iva + i) s
      (next z).run s
  | .step i next, s => next.run { s with iva := (s.iva + i).toNat }

/-- A query: where the function body begins and ends, `is_cpp_g`, and what `f_CompoundStatement` does. -/
structure Qry where
  start_lineno_g : Int
  start_charno_g : Int
  end_lineno_g : Int
  end_charno_g : Int
  is_cpp_g : Bool := true
  body : Body

def Qry.startsAt (q : Qry) (z : ZZSTYPE) : Prop := z.yylineno = q.start_lineno_g ∧ z.yycharno = q.start_charno_g

def Qry.endsAt (q : Qry) (z : ZZSTYPE) : Prop := z.yylineno = q.end_lineno_g ∧ z.yycharno = q.end_charno_g

instance (q : Qry) (z : ZZSTYPE) : Decidable (q.startsAt z) := inferInstanceAs (Decidable (_ ∧ _))

instance (q : Qry) (z : ZZSTYPE) : Decidable (q.endsAt z) := inferInstanceAs (Decidable (_ ∧ _))

/-- The file is opened and read from its beginning. -/
def openFile (file : Nat → File) (q : Qry) (s : Scan) : Scan :=
  { s with
    current := true
    opened := s.opened + 1
    keyw_cpp := q.is_cpp_g
    lexer := { s.lexer with filter := Filter.init, ivt := 0, eof := (file s.opened).eof }
    rest := (file s.opened).tokens
    iva := 0 }

/-- A query of another file than the last one opens the file. -/
def onFile (file : Nat → File) (q : Qry) (s : Scan) : Scan := if s.current then s else openFile file q s

/-- The loop over the tokens; also the token at which `f_CompoundStatement` was called. -/
def scan (q : Qry) : Nat → Scan → Except Fault (Scan × Option ZZSTYPE)
  | 0, _ => .error .input
  | n + 1, s => do
      let (s, z) ← slot s.iva s
      if token s.keyw_cpp z = 0 then return (s, none)
      else if q.startsAt z then do
        let s ← q.body.run s
        let (s, behind) ← slot (s.iva - 1) s
        return ({ s with current := decide (q.endsAt behind) }, some z)
      else scan q n { s with iva := s.iva + 1 }

/-- No more tokens are left than have been read or can be, and the end of the file. -/
def Paf_insert_cross_ref_qry (file : Nat → File) (q : Qry) (s : Scan) : Except Fault (Scan × Option ZZSTYPE) := do
  let s := onFile file q s
  let (s, z) ← scan q (s.lexer.ivt + s.rest.length + 1) s
  let (lexer, rest) := f_read_end s.rest s.lexer
  return ({ s with lexer, rest }, z)

/-- The queries of a file one after the other, with the token at which each called `f_CompoundStatement`. -/
def queries (file : Nat → File) : List Qry → Scan → Except Fault (List (Option ZZSTYPE))
  | [], _ => return []
  | q :: qs, s => do
      let (s, z) ← Paf_insert_cross_ref_qry file q s
      let zs ← queries file qs s
      return z :: zs

/-! ### The tokens of the file -/

/-- What is stored of the tokens, each with its mark. -/
def deliver : List Delivered → Filter → Except Fault (List (ZZSTYPE × Bool))
  | [], _ => .ok []
  | d :: ds, filter => do
      let (filter, z) ← filter.readToken d.read
      let zs ← deliver ds filter
      return z.toList.map (·, d.last) ++ zs

/-- The array that the window stands for. -/
structure Contents where
  zs : List (ZZSTYPE × Bool)
  eof : Nat → Token
  stale : ZZSTYPE

/-- The token at a place. -/
def Contents.at (a : Contents) (place : Int) : ZZSTYPE :=
  if place < 0 then a.stale
  else (a.zs[place.toNat]?.map Prod.fst).getD (a.eof place.toNat).toZZ

/-- Whether the first `n` tokens end where those of a call of `yylex` do. -/
def Contents.whole (a : Contents) : Nat → Bool
  | 0 => true
  | n + 1 => (a.zs[n]?.map Prod.snd).getD true

/-- The position behind a body and the number of tokens that have been read, on the array. -/
def Body.walk (a : Contents) : Body → Nat × Nat → Nat × Nat
  | .done, p => p
  | .slot i next, (iva, n) => (next (a.at (iva + i))).walk a (iva, max n (iva + i + 1).toNat)
  | .step i next, (iva, n) => next.walk a ((iva + i).toNat, n)

/-- Where the body ends when it begins with token `i`. -/
def Qry.stop (q : Qry) (a : Contents) (i : Nat) : Nat := (q.body.walk a (i, i + 1)).1

/-- How many tokens have been read then. -/
def Qry.reach (q : Qry) (a : Contents) (i : Nat) : Nat := max (q.body.walk a (i, i + 1)).2 (q.stop a i)

/-- The query is for a token of the file. -/
def Qry.Found (a : Contents) (q : Qry) : Prop := ∃ i < a.zs.length, q.startsAt (a.at i)

/-- The body of `q` ends in front of the one of `q'`, and `f_CompoundStatement` does not stop reading inside
what a macro was replaced with, unless it ends where it should not. -/
structure Apart (a : Contents) (q q' : Qry) : Prop where
  before : ∀ i j : Nat, q.endsAt (a.at i) → j < a.zs.length → q'.startsAt (a.at j) → i < j
  whole : ∀ i < a.zs.length, q.startsAt (a.at i) → q.endsAt (a.at (q.stop a i - 1)) → a.whole (q.reach a i) = true

/-! ### Reading -/

section Reading

variable {a : Contents} {l : Lexer} {rest : List Delivered} {place : Nat} {s : Scan} {q : Qry} {file : Nat → File}

/-- The array as far as it has been read, with what is still to come. -/
structure Ahead (a : Contents) (l : Lexer) (rest : List Delivered) : Prop where
  stored : ∀ i < l.ivt, l.v i = a.at i
  ahead : deliver rest l.filter = .ok (a.zs.drop l.ivt)
  eof : l.eof = a.eof

/-- `last` is right for the last token that was stored. -/
structure Reads (a : Contents) (l : Lexer) (rest : List Delivered) : Prop extends Ahead a l rest where
  whole : l.last = a.whole l.ivt

theorem Contents.at_of_lt {i : Nat} (less : i < a.zs.length) : a.at i = a.zs[i].1 := by
  unfold Contents.at
  rw [if_neg (by omega), Int.toNat_natCast, List.getElem?_eq_getElem less]
  rfl

theorem Contents.at_of_le {i : Nat} (le : a.zs.length ≤ i) : a.at i = (a.eof i).toZZ := by
  unfold Contents.at
  rw [if_neg (by omega), Int.toNat_natCast, List.getElem?_eq_none le]
  rfl

theorem Contents.whole_of_le {n : Nat} (le : a.zs.length ≤ n) : a.whole (n + 1) = true := by
  change (a.zs[n]?.map Prod.snd).getD true = true
  rw [List.getElem?_eq_none le]
  rfl

/-- One token is taken from the array, if any is stored. -/
theorem Ahead.read {d : Delivered} (ahead : Ahead a l (d :: rest)) :
    ∃ filter z, l.filter.readToken d.read = .ok (filter, z) ∧
      (z = none → deliver rest filter = .ok (a.zs.drop l.ivt)) ∧
      ∀ x, z = some x → l.ivt < a.zs.length ∧ a.at l.ivt = x ∧ a.whole (l.ivt + 1) = d.last ∧
        deliver rest filter = .ok (a.zs.drop (l.ivt + 1)) := by
  have delivered := ahead.ahead
  unfold deliver at delivered
  cases read : l.filter.readToken d.read with
  | error fault => simp [read, bind, Except.bind] at delivered
  | ok out =>
    obtain ⟨filter, z⟩ := out
    cases more : deliver rest filter with
    | error fault => simp [read, more, bind, Except.bind] at delivered
    | ok zs =>
      simp only [read, more, bind, Except.bind, pure, Except.pure, Except.ok.injEq] at delivered
      refine ⟨filter, z, rfl, ?_, ?_⟩
      · rintro rfl
        rw [more, ← delivered]
        rfl
      · rintro x rfl
        have here : a.zs[l.ivt]? = some (x, d.last) := by
          rw [← List.head?_drop, ← delivered]
          rfl
        obtain ⟨less, same⟩ := List.getElem?_eq_some_iff.mp here
        refine ⟨less, ?_, ?_, ?_⟩
        · rw [Contents.at_of_lt less, same]
        · change (a.zs[l.ivt]?.map Prod.snd).getD true = d.last
          rw [here]
          rfl
        · rw [more, ← List.tail_drop, ← delivered]
          rfl

/-- `f_read` reads on in the array. -/
theorem Ahead.f_read (ahead : Ahead a l rest) (place : Nat) :
    ∃ l' rest', f_read place rest l = .ok (l', rest') ∧ Ahead a l' rest' ∧ l'.ivt = max l.ivt (place + 1) ∧
      l'.last = if l.ivt ≤ place then a.whole (place + 1) else l.last := by
  induction rest generalizing l with
  | nil =>
    have all : a.zs.length ≤ l.ivt := List.drop_eq_nil_iff.mp (Except.ok.inj ahead.ahead).symm
    unfold Query.f_read
    by_cases short : l.ivt ≤ place
    · rw [if_pos short, if_pos short, Contents.whole_of_le (by omega)]
      refine ⟨_, _, rfl, ⟨?_, ?_, ahead.eof⟩, ?_, rfl⟩
      · intro i less
        dsimp only
        split
        · rename_i behind
          rw [ahead.eof, Contents.at_of_le (by omega)]
        · exact ahead.stored i (by omega)
      · rw [List.drop_eq_nil_iff.mpr (by dsimp only; omega)]
        rfl
      · dsimp only
        omega
    · rw [if_neg short, if_neg short]
      exact ⟨l, [], rfl, ahead, by omega, rfl⟩
  | cons d ds ih =>
    unfold Query.f_read
    by_cases short : l.ivt ≤ place
    · obtain ⟨filter, z, read, skipped, taken⟩ := ahead.read
      rw [if_pos short, if_pos short, read]
      cases z with
      | none =>
        have next := ih (l := { l with filter := filter, last := d.last }) ⟨ahead.stored, skipped rfl, ahead.eof⟩
        simpa [bind, Except.bind, short] using next
      | some x =>
        obtain ⟨less, same, whole, behind⟩ := taken x rfl
        have stored : ∀ i < l.ivt + 1, Function.update l.v l.ivt x i = a.at i := by
          intro i below
          by_cases here : i = l.ivt
          · rw [here, Function.update_self, same]
          · rw [Function.update_of_ne here]
            exact ahead.stored i (by omega)
        obtain ⟨l', rest', run, ahead', ivt, last⟩ :=
          ih (l := { l with filter := filter, v := Function.update l.v l.ivt x, ivt := l.ivt + 1, last := d.last })
            ⟨stored, behind, ahead.eof⟩
        refine ⟨l', rest', by simpa [bind, Except.bind] using run, ahead', ?_, ?_⟩
        · dsimp only at ivt
          omega
        · dsimp only at last
          rw [last]
          split
          · rfl
          · rw [← whole, show l.ivt = place by omega]
    · rw [if_neg short, if_neg short]
      exact ⟨l, d :: ds, rfl, ahead, by omega, rfl⟩

theorem Reads.f_read (reads : Reads a l rest) (place : Nat) :
    ∃ l' rest', f_read place rest l = .ok (l', rest') ∧ Reads a l' rest' ∧ l'.ivt = max l.ivt (place + 1) := by
  obtain ⟨l', rest', run, ahead, ivt, last⟩ := reads.toAhead.f_read place
  refine ⟨l', rest', run, ⟨ahead, ?_⟩, ivt⟩
  rw [last, ivt]
  split
  · rw [Nat.max_eq_right (by omega)]
  · rw [Nat.max_eq_left (by omega)]
    exact reads.whole

/-- The state as far as reading goes on in it. -/
structure On (a : Contents) (s : Scan) : Prop where
  reads : Reads a s.lexer s.rest
  stale : s.stale = a.stale

theorem On.slot (on : On a s) (place : Int) :
    ∃ l rest, slot place s = .ok ({ s with lexer := l, rest := rest }, a.at place) ∧
      On a { s with lexer := l, rest := rest } ∧ l.ivt = max s.lexer.ivt (place + 1).toNat := by
  unfold Query.slot
  by_cases negative : place < 0
  · have there : a.at place = s.stale := by
      rw [on.stale]
      exact if_pos negative
    rw [if_pos negative, there]
    exact ⟨s.lexer, s.rest, rfl, on, by omega⟩
  · obtain ⟨l, rest, run, reads, ivt⟩ := on.reads.f_read place.toNat
    have there := reads.stored place.toNat (by omega)
    rw [Int.toNat_of_nonneg (by omega)] at there
    rw [if_neg negative, run]
    exact ⟨l, rest, by simp [bind, Except.bind, pure, Except.pure, there], ⟨reads, on.stale⟩, by omega⟩

theorem Body.le_walk (body : Body) (iva n : Nat) : n ≤ (body.walk a (iva, n)).2 := by
  induction body generalizing iva n with
  | done => exact Nat.le_refl n
  | slot i next ih => exact Nat.le_trans (Nat.le_max_left ..) (ih ..)
  | step i next ih => exact ih ..

/-- A body reads and moves as on the array. -/
theorem On.run (on : On a s) (body : Body) (n : Nat) (less : n ≤ s.lexer.ivt) :
    ∃ l rest, body.run s = .ok { s with lexer := l, rest := rest, iva := (body.walk a (s.iva, n)).1 } ∧
      On a { s with lexer := l, rest := rest, iva := (body.walk a (s.iva, n)).1 } ∧
      l.ivt = max s.lexer.ivt (body.walk a (s.iva, n)).2 := by
  induction body generalizing s n with
  | done =>
    unfold Body.run Body.walk
    exact ⟨s.lexer, s.rest, rfl, ⟨on.reads, on.stale⟩, by omega⟩
  | slot i next ih =>
    obtain ⟨l, rest, run, on', ivt⟩ := on.slot (s.iva + i)
    unfold Body.run Body.walk
    rw [run]
    obtain ⟨l', rest', run', on'', ivt'⟩ := ih _ on' (max n (s.iva + i + 1).toNat) (by dsimp only; omega)
    have more := (next (a.at (s.iva + i))).le_walk (a := a) s.iva (max n (s.iva + i + 1).toNat)
    refine ⟨l', rest', run', on'', ?_⟩
    dsimp only at ivt' ⊢
    omega
  | step i next ih =>
    unfold Body.run Body.walk
    have moved : On a { s with iva := (s.iva + i).toNat } := ⟨on.reads, on.stale⟩
    exact ih moved n less

/-! ### The search for the start -/

/-- What `f_read` stores is the token. -/
theorem readToken_stores {filter filter' : Filter} {r : Read} {z : ZZSTYPE}
    (read : filter.readToken r = .ok (filter', some z)) : z = r.token.toZZ := by
  unfold Filter.readToken at read
  split at read
  all_goals simp only [bind, Except.bind, pure, Except.pure] at read
  all_goals first | cases read; rfl | skip
  all_goals split at read <;> try cases read
  split at read <;> cases read
  rfl

theorem token_toZZ_eq_zero (keyw_cpp : Bool) (t : Token) : token keyw_cpp t.toZZ = 0 ↔ t.lex = 0 := by
  unfold token Token.toZZ
  by_cases keyword : t.lex = SN_IDENTIFIER ∧ 0 < t.keyword
  · cases keyw_cpp <;> cases t.is_cpp <;> simp [keyword] <;> omega
  · cases keyw_cpp <;> simp [keyword]

theorem deliver_spec {ds : List Delivered} {filter : Filter} {zs : List (ZZSTYPE × Bool)}
    (delivered : deliver ds filter = .ok zs) :
    zs.length ≤ ds.length ∧ ∀ z ∈ zs, ∃ d ∈ ds, z.1 = d.read.token.toZZ := by
  induction ds generalizing filter zs with
  | nil =>
    cases delivered
    simp
  | cons d ds ih =>
    unfold deliver at delivered
    cases read : filter.readToken d.read with
    | error fault => simp [read, bind, Except.bind] at delivered
    | ok out =>
      obtain ⟨filter', z⟩ := out
      cases more : deliver ds filter' with
      | error fault => simp [read, more, bind, Except.bind] at delivered
      | ok zs' =>
        obtain ⟨length, same⟩ := ih more
        simp only [read, more, bind, Except.bind, pure, Except.pure, Except.ok.injEq] at delivered
        subst delivered
        cases z with
        | none =>
          refine ⟨by simp; omega, fun z among => ?_⟩
          obtain ⟨d', among', eq⟩ := same z (by simpa using among)
          exact ⟨d', List.mem_cons_of_mem _ among', eq⟩
        | some x =>
          refine ⟨by simp; omega, fun z among => ?_⟩
          rcases List.mem_cons.mp (show z ∈ (x, d.last) :: zs' from among) with rfl | among
          · exact ⟨d, List.mem_cons_self, readToken_stores read⟩
          · obtain ⟨d', among', eq⟩ := same z among
            exact ⟨d', List.mem_cons_of_mem _ among', eq⟩

/-- Whenever the file is opened, the array is what is delivered: the `#if` handling does not change. -/
structure Contains (file : Nat → File) (a : Contents) : Prop where
  zs : ∀ n, deliver (file n).tokens Filter.init = .ok a.zs
  eof : ∀ n, (file n).eof = a.eof

theorem Contains.token_eq_zero_iff (contains : Contains file a) (keyw_cpp : Bool) (i : Nat) :
    token keyw_cpp (a.at i) = 0 ↔ a.zs.length ≤ i := by
  by_cases less : i < a.zs.length
  · obtain ⟨d, among, same⟩ := (deliver_spec (contains.zs 0)).2 _ (List.getElem_mem less)
    rw [Contents.at_of_lt less, same, token_toZZ_eq_zero]
    have := (file 0).delivers d among
    constructor
    · exact fun zero => absurd zero this
    · omega
  · rw [Contents.at_of_le (by omega), token_toZZ_eq_zero, ← contains.eof 0]
    have := (file 0).ends i
    constructor
    · omega
    · exact fun _ => this

/-- At the first token with its start the body is parsed. -/
theorem On.scan_found (contains : Contains file a) (on : On a s) {p n : Nat} (from_ : s.iva ≤ p)
    (less : p < a.zs.length) (here : q.startsAt (a.at p)) (first : ∀ i, s.iva ≤ i → i < p → ¬ q.startsAt (a.at i))
    (enough : p < s.iva + n) :
    ∃ l rest, scan q n s = .ok ({ s with
        current := decide (q.endsAt (a.at (q.stop a p - 1))), lexer := l, rest := rest, iva := q.stop a p }, some (a.at p)) ∧
      Reads a l rest ∧ l.ivt = max s.lexer.ivt (q.reach a p) := by
  induction n generalizing s with
  | zero => omega
  | succ n ih =>
    obtain ⟨l, rest, run, on', ivt⟩ := on.slot s.iva
    unfold scan
    simp only [run, bind, Except.bind]
    have some_ : ¬ token s.keyw_cpp (a.at s.iva) = 0 := by
      rw [contains.token_eq_zero_iff]
      omega
    rw [if_neg some_]
    by_cases there : s.iva = p
    · subst there
      rw [if_pos here]
      obtain ⟨l₁, rest₁, run₁, on₁, ivt₁⟩ := on'.run q.body (s.iva + 1) (by dsimp only; omega)
      obtain ⟨l₂, rest₂, run₂, on₂, ivt₂⟩ := on₁.slot (q.stop a s.iva - 1)
      simp only at run₁
      rw [run₁]
      simp only
      unfold Qry.stop at run₂ ⊢
      dsimp only at run₂
      rw [run₂]
      refine ⟨l₂, rest₂, rfl, on₂.reads, ?_⟩
      have reached := q.body.le_walk (a := a) s.iva (s.iva + 1)
      unfold Qry.reach
      dsimp only at ivt₁ ivt₂
      omega
    · rw [if_neg (first s.iva (Nat.le_refl _) (by omega))]
      have moved : On a { s with lexer := l, rest := rest, iva := s.iva + 1 } := ⟨on'.reads, on'.stale⟩
      obtain ⟨l₁, rest₁, run₁, reads₁, ivt₁⟩ := ih moved (by dsimp only; omega) (fun i => by dsimp only; exact fun le => first i (by omega)) (by dsimp only; omega)
      refine ⟨l₁, rest₁, run₁, reads₁, ?_⟩
      have reached := q.body.le_walk (a := a) p (p + 1)
      unfold Qry.reach at ivt₁ ⊢
      dsimp only at ivt₁ ivt
      omega

/-- Without such a token the file is read to its end. -/
theorem On.scan_lost (contains : Contains file a) (on : On a s) {n : Nat}
    (nowhere : ∀ i, s.iva ≤ i → i < a.zs.length → ¬ q.startsAt (a.at i)) (some_ : 0 < n) (enough : a.zs.length < s.iva + n) :
    ∃ l rest, scan q n s = .ok ({ s with lexer := l, rest := rest, iva := max s.iva a.zs.length }, none) ∧
      Reads a l rest ∧ a.zs.length < l.ivt := by
  induction n generalizing s with
  | zero => omega
  | succ n ih =>
    obtain ⟨l, rest, run, on', ivt⟩ := on.slot s.iva
    unfold scan
    simp only [run, bind, Except.bind]
    by_cases past : a.zs.length ≤ s.iva
    · rw [if_pos ((contains.token_eq_zero_iff ..).mpr past), Nat.max_eq_left past]
      exact ⟨l, rest, rfl, on'.reads, by omega⟩
    · rw [if_neg fun zero => past ((contains.token_eq_zero_iff ..).mp zero), if_neg (nowhere _ (Nat.le_refl _) (by omega))]
      have moved : On a { s with lexer := l, rest := rest, iva := s.iva + 1 } := ⟨on'.reads, on'.stale⟩
      obtain ⟨l₁, rest₁, run₁, reads₁, ivt₁⟩ := ih moved (fun i => by dsimp only; exact fun le => nowhere i (by omega)) (by omega) (by dsimp only; omega)
      dsimp only at run₁
      rw [show max (s.iva + 1) a.zs.length = max s.iva a.zs.length by omega] at run₁
      exact ⟨l₁, rest₁, run₁, reads₁, ivt₁⟩

/-! ### One query after the other -/

/-- The first token at the start of the body. -/
structure Qry.First (a : Contents) (q : Qry) (p : Nat) : Prop where
  less : p < a.zs.length
  here : q.startsAt (a.at p)
  first : ∀ i < p, ¬ q.startsAt (a.at i)

theorem Qry.Found.first (found : q.Found a) : ∃ p, q.First a p := by
  obtain ⟨p, less, here⟩ := found
  induction p using Nat.strongRecOn with
  | ind p ih =>
    by_cases earlier : ∃ i < p, q.startsAt (a.at i)
    · obtain ⟨i, below, starts⟩ := earlier
      exact ih i below (by omega) starts
    · exact ⟨p, less, here, fun i below starts => earlier ⟨i, below, starts⟩⟩

/-- The state in front of the next query: where the file is open, nothing has been thrown away and the
start of the body is still ahead. -/
structure Ready (a : Contents) (qs : List Qry) (s : Scan) : Prop where
  stale : s.stale = a.stale
  last : s.lexer.last = true
  ahead : s.current = true → ∀ q ∈ qs.head?, Reads a s.lexer s.rest ∧
    ∀ i < a.zs.length, q.startsAt (a.at i) → s.iva ≤ i

theorem Ready.onFile {qs : List Qry} (ready : Ready a (q :: qs) s) (contains : Contains file a) :
    On a (onFile file q s) ∧ (onFile file q s).current = true ∧ (onFile file q s).lexer.last = true ∧
      ∀ i < a.zs.length, q.startsAt (a.at i) → (onFile file q s).iva ≤ i := by
  unfold Query.onFile
  by_cases current : s.current = true
  · rw [if_pos current]
    obtain ⟨reads, ahead⟩ := ready.ahead current q rfl
    exact ⟨⟨reads, ready.stale⟩, current, ready.last, ahead⟩
  · rw [if_neg current]
    refine ⟨⟨⟨⟨?_, contains.zs _, contains.eof _⟩, ready.last⟩, ready.stale⟩, rfl, ready.last, fun i _ _ => Nat.zero_le i⟩
    intro i none
    exact absurd none (Nat.not_lt_zero i)

theorem On.enough (on : On a s) : a.zs.length < s.iva + (s.lexer.ivt + s.rest.length + 1) := by
  have length := (deliver_spec on.reads.ahead).1
  rw [List.length_drop] at length
  omega

theorem f_read_end_last {l : Lexer} (last : l.last = true) : f_read_end rest l = (l, rest) := if_pos last

theorem last_f_read_end (l : Lexer) (rest : List Delivered) : (f_read_end rest l).1.last = true := by
  unfold f_read_end
  split
  · assumption
  · rfl

theorem qry_of_scan {s' : Scan} {z : Option ZZSTYPE}
    (run : scan q ((onFile file q s).lexer.ivt + (onFile file q s).rest.length + 1) (onFile file q s) = .ok (s', z)) :
    Paf_insert_cross_ref_qry file q s =
      .ok ({ s' with lexer := (f_read_end s'.rest s'.lexer).1, rest := (f_read_end s'.rest s'.lexer).2 }, z) := by
  unfold Paf_insert_cross_ref_qry
  simp only [run, bind, Except.bind]
  rfl

/-- A query that finds its start, and the state it leaves. -/
theorem Ready.found {qs : List Qry} {p : Nat} (ready : Ready a (q :: qs) s) (contains : Contains file a)
    (at_ : q.First a p) (apart : ∀ q' ∈ qs.head?, Apart a q q') :
    ∃ s', Paf_insert_cross_ref_qry file q s = .ok (s', some (a.at p)) ∧ Ready a qs s' := by
  obtain ⟨on, _, lastOn, ahead⟩ := ready.onFile contains
  obtain ⟨l, rest, run, reads, ivt⟩ := on.scan_found contains (ahead p at_.less at_.here) at_.less at_.here
    (fun i _ => at_.first i) (Nat.lt_trans at_.less on.enough)
  refine ⟨_, qry_of_scan run, on.stale, last_f_read_end .., ?_⟩
  intro current q' next
  have between := apart q' next
  have ends : q.endsAt (a.at (q.stop a p - 1)) := of_decide_eq_true current
  have last : l.last = true := by
    rw [reads.whole, ivt]
    rcases Nat.le_total (Query.onFile file q s).lexer.ivt (q.reach a p) with le | le
    · rw [Nat.max_eq_right le]
      exact between.whole p at_.less at_.here ends
    · rw [Nat.max_eq_left le, ← on.reads.whole, lastOn]
  dsimp only
  rw [f_read_end_last last]
  refine ⟨reads, fun j less starts => ?_⟩
  rcases Nat.eq_zero_or_pos (q.stop a p) with none | some_
  · omega
  · rw [show (q.stop a p : Int) - 1 = (q.stop a p - 1 : Nat) by omega] at ends
    have := between.before _ j ends less starts
    omega

/-- The file has been read to its end. -/
structure Lost (a : Contents) (s : Scan) : Prop where
  on : On a s
  last : s.lexer.last = true
  current : s.current = true
  past : a.zs.length ≤ s.iva

/-- A query that does not find its start. -/
theorem On.lost (contains : Contains file a) (on : On a (onFile file q s)) (current : (onFile file q s).current = true)
    (nowhere : ∀ i, (onFile file q s).iva ≤ i → i < a.zs.length → ¬ q.startsAt (a.at i)) :
    ∃ s', Paf_insert_cross_ref_qry file q s = .ok (s', none) ∧ Lost a s' := by
  obtain ⟨l, rest, run, reads, past⟩ := on.scan_lost contains nowhere (Nat.succ_pos _) on.enough
  have last : l.last = true := by
    obtain ⟨n, eq⟩ : ∃ n, l.ivt = n + 1 := ⟨l.ivt - 1, by omega⟩
    rw [reads.whole, eq, Contents.whole_of_le (by omega)]
  refine ⟨_, qry_of_scan run, ?_⟩
  dsimp only
  rw [f_read_end_last last]
  exact ⟨⟨reads, on.stale⟩, last, current, Nat.le_max_right ..⟩

theorem Lost.onFile (lost : Lost a s) (file : Nat → File) (q : Qry) : onFile file q s = s := if_pos lost.current

/-- From then on no query finds its start. -/
theorem Lost.queries (contains : Contains file a) (lost : Lost a s) (qs : List Qry) :
    queries file qs s = .ok (qs.map fun _ => none) := by
  induction qs generalizing s with
  | nil => rfl
  | cons q qs ih =>
    have same := lost.onFile file q
    obtain ⟨s', run, lost'⟩ := On.lost contains (same.symm ▸ lost.on) (same.symm ▸ lost.current) fun i from_ less => by
      have := lost.past
      rw [same] at from_
      omega
    unfold Query.queries
    rw [run]
    simp only [bind, Except.bind, ih lost']
    rfl

/-- The tokens at which the queries call `f_CompoundStatement`. -/
inductive Outcomes (a : Contents) : List Qry → List (Option ZZSTYPE) → Prop
  | nil : Outcomes a [] []
  | found {q qs zs p} (first : Qry.First a q p) (rest : Outcomes a qs zs) : Outcomes a (q :: qs) (some (a.at p) :: zs)
  | lost {q qs} (nowhere : ¬ Qry.Found a q) : Outcomes a (q :: qs) (none :: qs.map fun _ => none)

/-- A query finds its start up to the first that has none. -/
theorem Ready.queries {qs : List Qry} (ready : Ready a qs s) (contains : Contains file a) (apart : qs.IsChain (Apart a)) :
    ∃ zs, queries file qs s = .ok zs ∧ Outcomes a qs zs := by
  induction qs generalizing s with
  | nil => exact ⟨[], rfl, .nil⟩
  | cons q qs ih =>
    by_cases found : q.Found a
    · obtain ⟨p, first⟩ := found.first
      have next : ∀ q' ∈ qs.head?, Apart a q q' := by
        cases qs with
        | nil => exact fun q' none => by cases none
        | cons r qs =>
          rintro q' ⟨⟩
          exact (List.isChain_cons_cons.mp apart).1
      obtain ⟨s', run, ready'⟩ := ready.found contains first next
      obtain ⟨zs, rest, outcomes⟩ := ih ready' apart.of_cons
      unfold Query.queries
      rw [run]
      simp only [bind, Except.bind, rest]
      exact ⟨_, rfl, .found first outcomes⟩
    · obtain ⟨on, current, _⟩ := ready.onFile contains
      obtain ⟨s', run, lost⟩ := on.lost contains current fun i _ less starts => found ⟨i, less, starts⟩
      unfold Query.queries
      rw [run]
      simp only [bind, Except.bind, lost.queries contains]
      exact ⟨_, rfl, .lost found⟩

/-! ### Which queries are processed -/

abbrev LBRACE : Nat := 123

/-- The start of the query is the position of an opening brace. -/
def Qry.ForBody (a : Contents) (q : Qry) : Prop :=
  ∃ i < a.zs.length, q.startsAt (a.at i) ∧ (a.at i).yytoken = LBRACE

/-- `f_CompoundStatement` is called at an opening brace at the start. -/
def Qry.Processed (q : Qry) (z : Option ZZSTYPE) : Prop := ∃ t ∈ z, q.startsAt t ∧ t.yytoken = LBRACE

/-- Every query for a function body processes it. -/
def Independent (file : Nat → File) (a : Contents) (qs : List Qry) (s : Scan) : Prop :=
  ∃ zs, queries file qs s = .ok zs ∧ List.Forall₂ (fun q z => q.ForBody a → q.Processed z) qs zs

theorem Qry.ForBody.found (forBody : q.ForBody a) : q.Found a := by
  obtain ⟨i, less, starts, _⟩ := forBody
  exact ⟨i, less, starts⟩

theorem not_processed_none : ¬ q.Processed none := by
  rintro ⟨t, none, _⟩
  cases none

theorem forall₂_none_iff {qs : List Qry} :
    List.Forall₂ (fun q z => q.ForBody a → q.Processed z) qs (qs.map fun _ => none) ↔ ∀ q ∈ qs, ¬ q.ForBody a := by
  induction qs with
  | nil => simp
  | cons q qs ih => rw [List.map_cons, List.forall₂_cons, ih, List.forall_mem_cons, imp_iff_not not_processed_none]

/-- The start of a query for a function body is no other token's position, or the brace is the first
one there. -/
def BraceFirst (a : Contents) (q : Qry) : Prop := q.ForBody a → ∀ p, q.First a p → (a.at p).yytoken = LBRACE

theorem Qry.First.eq {p p' : Nat} (first : q.First a p) (first' : q.First a p') : p = p' := by
  rcases Nat.lt_trichotomy p p' with less | same | less
  · exact absurd first.here (first'.first p less)
  · exact same
  · exact absurd first'.here (first.first p' less)

theorem Outcomes.processed_iff {qs : List Qry} {zs : List (Option ZZSTYPE)} (outcomes : Outcomes a qs zs) :
    List.Forall₂ (fun q z => q.ForBody a → q.Processed z) qs zs ↔
      (∀ q ∈ qs, BraceFirst a q) ∧ qs.Pairwise fun q q' => q'.ForBody a → q.Found a := by
  induction outcomes with
  | nil => simp
  | @found q qs zs p first rest ih =>
    have found : q.Found a := ⟨p, first.less, first.here⟩
    have here : (q.ForBody a → q.Processed (some (a.at p))) ↔ BraceFirst a q := by
      constructor
      · intro processed forBody p' first'
        obtain ⟨t, same, _, brace⟩ := processed forBody
        cases same
        rw [first'.eq first, brace]
      · intro braceFirst forBody
        exact ⟨_, rfl, first.here, braceFirst forBody p first⟩
    rw [List.forall₂_cons, ih, here, List.forall_mem_cons, List.pairwise_cons]
    simp only [found, implies_true, true_and, and_assoc]
  | @lost q qs nowhere =>
    have notForBody : ¬ q.ForBody a := fun forBody => nowhere forBody.found
    have here : (q.ForBody a → q.Processed none) ↔ True := by simp [notForBody]
    rw [List.forall₂_cons, forall₂_none_iff, here, List.forall_mem_cons, List.pairwise_cons]
    simp only [nowhere, true_and, imp_false]
    constructor
    · intro none
      refine ⟨⟨fun forBody => absurd forBody notForBody, fun q' among forBody => absurd forBody (none q' among)⟩, none, ?_⟩
      exact List.pairwise_of_forall_mem_list fun _ _ q' among forBody => absurd forBody (none q' among)
    · exact fun all => all.2.1

/-- For queries whose bodies follow one another, when no other file is open yet: every one for a function
body processes it iff none of them comes after a query whose start is the position of no token. -/
theorem queries_independent_iff (contains : Contains file a) {qs : List Qry} (apart : qs.IsChain (Apart a))
    (other : s.current = false) (last : s.lexer.last = true) (stale : s.stale = a.stale) :
    Independent file a qs s ↔
      (∀ q ∈ qs, BraceFirst a q) ∧ qs.Pairwise fun q q' => q'.ForBody a → q.Found a := by
  have ready : Ready a qs s := ⟨stale, last, fun current => by simp [other] at current⟩
  obtain ⟨zs, run, outcomes⟩ := ready.queries contains apart
  rw [← outcomes.processed_iff]
  constructor
  · rintro ⟨zs', run', all⟩
    cases run.symm.trans run'
    exact all
  · exact fun all => ⟨zs, run, all⟩

end Reading

/-! ### A file with two bodies -/

/-- A brace of the second pass, which no macro has been replaced with. -/
def brace (lex : Nat) (lineno charno : Int) : Delivered :=
  ⟨⟨{ lex, lineno_beg := lineno, charno_beg := charno }, 0⟩, true⟩

/-- Two lines with the braces of a body each. -/
def twoBodies : File where
  tokens := [brace 123 1 0, brace 125 1 1, brace 123 2 0, brace 125 2 1]
  eof := fun _ => { lex := 0, lineno_beg := 3 }
  delivers := by decide
  ends := fun _ => rfl

def twoBodiesRead : Contents where
  zs := twoBodies.tokens.map fun d => (d.read.token.toZZ, true)
  eof := twoBodies.eof
  stale := ⟨0, 0, [], 0, 0⟩

/-- The state in which nothing has been read. -/
def notOpen : Scan where
  current := false
  opened := 0
  keyw_cpp := true
  lexer := ⟨Filter.init, fun _ => ⟨0, 0, [], 0, 0⟩, 0, true, twoBodies.eof⟩
  rest := []
  iva := 0
  stale := ⟨0, 0, [], 0, 0⟩

/-- A body without statements. -/
def emptyBody : Body := .slot 0 fun _ => .step 1 (.slot 0 fun _ => .step 1 .done)

/-- The query for the body in a line. -/
def inLine (line : Int) : Qry := ⟨line, 0, line, 1, true, emptyBody⟩

/-- A query for a position at which no token is. -/
def nowhere : Qry := ⟨1, 5, 1, 9, true, emptyBody⟩

/-- After it the second body is not processed. -/
theorem nowhere_loses : ¬ Independent (fun _ => twoBodies) twoBodiesRead [nowhere, inLine 2] notOpen := by
  rintro ⟨zs, run, all⟩
  have lost : queries (fun _ => twoBodies) [nowhere, inLine 2] notOpen = .ok [none, none] := rfl
  cases lost.symm.trans run
  have forBody : (inLine 2).ForBody twoBodiesRead := ⟨2, by decide, by decide, by decide⟩
  simp only [List.forall₂_cons] at all
  exact not_processed_none (all.2.1 forBody)

theorem twoBodies_apart : Apart twoBodiesRead (inLine 1) (inLine 2) := by
  constructor
  · intro i j ends less starts
    have places : ∀ j : Nat, j < 4 → (inLine 2).startsAt (twoBodiesRead.at j) → 2 ≤ j := by decide
    have ends_ : ∀ i : Nat, i < 4 → (inLine 1).endsAt (twoBodiesRead.at i) → i < 2 := by decide
    have from_ := places j less starts
    by_cases inside : i < 4
    · exact Nat.lt_of_lt_of_le (ends_ i inside ends) from_
    · have past : twoBodiesRead.zs.length ≤ i := by
        change 4 ≤ i
        omega
      rw [Contents.at_of_le past] at ends
      cases ends.1
  · decide

/-- Without it both are. -/
theorem both_processed :
    Independent (fun _ => twoBodies) twoBodiesRead [inLine 1, inLine 2] notOpen ↔
      (∀ q ∈ [inLine 1, inLine 2], BraceFirst twoBodiesRead q) ∧
        [inLine 1, inLine 2].Pairwise fun q q' => q'.ForBody twoBodiesRead → q.Found twoBodiesRead :=
  queries_independent_iff ⟨fun _ => rfl, fun _ => rfl⟩ (.cons_cons twoBodies_apart (.singleton _)) rfl rfl rfl

end SourceNavigator.Cpp.Query
