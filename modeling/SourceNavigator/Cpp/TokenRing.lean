import SourceNavigator.Cpp.MacroProcess
import SourceNavigator.Lib.Fuel
import SourceNavigator.Lib.Ring

/-!
Token rings (`cpp/cpplib/token.c`, `macro.c`).

The tokens stand in a memory and are linked by the addresses `TokenNext` and
`TokenPrev`. New tokens come from the tokens that were freed, or else from blocks of
1000 tokens, whose addresses are kept in an array of 100 entries; to create a token
that needs another block is undefined. A block is fresh memory. Of a new token
`mode` and the fields that the creation does not set are what was there before.

* `append_right` and `delete_right`: the operations on rings are those on lists.
* `f_MacroMerge_copies`: the merged ring has the tokens of `Process.f_MacroMerge`.
-/

namespace SourceNavigator.Cpp.TokenRing

open Lib Lib.Fuel

/-- Addresses are numbers. -/
abbrev NULL : Nat := 0

/-- The variables that `f_TokenCreate` keeps. The chain of free tokens is a list. -/
structure Pool where
  TokenFree_m : List Nat
  iTokenFreeMalloc : Nat
  iTokenFreeMallocArray : Nat

/-- `TokenFreeMalloc`: the blocks have the addresses from `1` on. -/
def Pool.TokenFreeMalloc (m : Pool) : Nat := 1000 * (m.iTokenFreeMallocArray - 1) + 1

/-- The tokens with their links. -/
structure Memory extends Pool where
  TokenNext : Nat → Nat
  TokenPrev : Nat → Nat
  token : Nat → Token

namespace Memory

def setNext (m : Memory) (p q : Nat) : Memory :=
  { m with TokenNext := Function.update m.TokenNext p q }

def setPrev (m : Memory) (p q : Nat) : Memory :=
  { m with TokenPrev := Function.update m.TokenPrev p q }

def setToken (m : Memory) (p : Nat) (t : Token) : Memory :=
  { m with token := Function.update m.token p t }

end Memory

/-! ### The functions -/

/-- The fields that are set in both branches of `f_TokenCreate`. -/
def initToken (Token : Nat) (m : Memory) : Memory :=
  ((m.setToken Token { m.token Token with keyword := 0, iParameter := -1 }).setNext Token
    Token).setPrev Token Token

/-- A new block where the last one is used up, if there is an entry for it. -/
def newBlock (m : Memory) : Option Memory :=
  if m.iTokenFreeMalloc = 0 then
    if m.iTokenFreeMallocArray < 100 then
      some { m with
        iTokenFreeMalloc := 1000, iTokenFreeMallocArray := m.iTokenFreeMallocArray + 1 }
    else none
  else some m

def f_TokenCreate (m : Memory) : Option (Nat × Memory) :=
  match m.TokenFree_m with
  | Token :: free => some (Token, initToken Token { m with TokenFree_m := free })
  | [] => (newBlock m).map fun m =>
    let Token := m.TokenFreeMalloc + (m.iTokenFreeMalloc - 1)
    (Token, initToken Token { m with iTokenFreeMalloc := m.iTokenFreeMalloc - 1 })

/-- The new `*pTokenBeg1` and the memory. -/
def f_TokenAppend (TokenBeg1 TokenBeg2 : Nat) (m : Memory) : Nat × Memory :=
  if TokenBeg1 = NULL then (TokenBeg2, m)
  else
    let TokenEnd1 := m.TokenPrev TokenBeg1
    let TokenEnd2 := m.TokenPrev TokenBeg2
    (TokenBeg1, (((m.setPrev TokenBeg1 TokenEnd2).setPrev TokenBeg2 TokenEnd1).setNext TokenEnd1
      TokenBeg2).setNext TokenEnd2 TokenBeg1)

def f_TokenDelete (Token : Nat) (m : Memory) : Memory :=
  let TokenPrev := m.TokenPrev Token
  let TokenNext := m.TokenNext Token
  (m.setNext TokenPrev TokenNext).setPrev TokenNext TokenPrev

def f_TokenDuplicate (Token : Nat) (m : Memory) : Option (Nat × Memory) :=
  (f_TokenCreate m).map fun r =>
    (r.1, r.2.setToken r.1 { r.2.token Token with mode := (r.2.token r.1).mode })

/-- `WHILE_TOKEN`: the next token is read before the body of the loop, which works on the state
`s`; its memory is `m s`. -/
def whileToken {σ : Type} (memory : σ → Memory) (body : Nat → σ → Option σ) (TokenEnd : Nat) :
    Nat → Nat → σ → Option σ
  | 0, _, _ => none
  | fuel + 1, Token, s =>
    if Token = NULL then some s
    else
      let TokenNext := (memory s).TokenNext Token
      if TokenNext = NULL then some s
      else (body Token s).bind fun s =>
        whileToken memory body TokenEnd fuel (if TokenNext = TokenEnd then NULL else TokenNext) s

/-- `struct sMacro`, the two bodies. -/
structure Macro where
  Token : Nat
  TokenProcessed : Nat

/-- `struct sParam`; `iToken` is the length. -/
abbrev Param := List Nat

def f_ParameterPosition (Param : Param) (position : Nat) : Nat := (Param[position]?).getD NULL

/-- The loop over the tokens of an argument. -/
def mergeArgument (fuel : Nat) (TokenParameter : Nat) (r : Nat × Memory) : Option (Nat × Memory) :=
  whileToken Prod.snd (fun Token r =>
      (f_TokenDuplicate Token r.2).map fun new => f_TokenAppend r.1 new.1 new.2)
    TokenParameter fuel TokenParameter r

/-- The copy of a token of the body. -/
def mergeToken (TokenBasic TokenMacro : Nat) (r : Nat × Memory) : Option (Nat × Memory) :=
  (f_TokenCreate r.2).map fun new =>
    let Token := new.2.token new.1
    let from_macro := new.2.token TokenMacro
    let basic := new.2.token TokenBasic
    f_TokenAppend r.1 new.1 <| new.2.setToken new.1
      { Token with
        lex := from_macro.lex, text := from_macro.text, keyword := from_macro.keyword
        is_cpp := from_macro.is_cpp, lineno_beg := basic.lineno_beg
        charno_beg := basic.charno_beg, lineno_end := basic.lineno_end
        charno_end := basic.charno_end }

/-- One turn of the loop of `f_MacroMerge`. -/
def mergeBody (fuel : Nat) (TokenBasic : Nat) (Param : Option Param) (TokenMacro : Nat)
    (r : Nat × Memory) : Option (Nat × Memory) :=
  match Param with
  | some Param =>
    if 0 ≤ (r.2.token TokenMacro).iParameter then
      mergeArgument fuel
        (f_ParameterPosition Param (r.2.token TokenMacro).iParameter.toNat) r
    else mergeToken TokenBasic TokenMacro r
  | none => mergeToken TokenBasic TokenMacro r

def f_MacroMerge (fuel : Nat) (Macro : Macro) (TokenBasic : Nat) (Param : Option Param)
    (bProcessed : Bool) (m : Memory) : Option (Nat × Memory) :=
  let TokenMacro := if bProcessed then Macro.TokenProcessed else Macro.Token
  whileToken Prod.snd (mergeBody fuel TokenBasic Param) TokenMacro fuel TokenMacro (NULL, m)

/-! ### Rings -/

variable {m m' m₀ : Memory} {p q r t x : Nat} {l l' u v : List Nat} {fuel : Nat}

def Memory.links (m : Memory) : RingLinks Nat := ⟨m.TokenNext, m.TokenPrev⟩

/-- The token pointed to begins a ring with the tokens of the list; no token is the empty ring. -/
structure IsRing (m : Memory) (p : Nat) (l : List Nat) : Prop where
  first : p = l.headD NULL
  null : NULL ∉ l
  ring : m.links.Ring l

/-- The appended ring has the tokens of the first one and then those of the second one. -/
theorem append_right (one : IsRing m p l) (two : IsRing m q l') (some_left : l' ≠ [])
    (apart : l.Disjoint l') :
    IsRing (f_TokenAppend p q m).2 (f_TokenAppend p q m).1 (l ++ l') := by
  obtain ⟨rfl, null, ring⟩ := one
  obtain ⟨rfl, null', ring'⟩ := two
  cases l with
  | nil => exact ⟨rfl, null', ring'⟩
  | cons a l =>
    obtain ⟨b, l', rfl⟩ := List.exists_cons_of_ne_nil some_left
    have a_null : a ≠ NULL := fun same => null (same ▸ List.mem_cons_self)
    have ends {c : Nat} {w : List Nat} : ∃ e, e ∈ (c :: w).getLast? :=
      ⟨_, List.getLast?_eq_some_getLast (List.cons_ne_nil c w)⟩
    obtain ⟨e, last⟩ := ends (c := a) (w := l)
    obtain ⟨e', last'⟩ := ends (c := b) (w := l')
    have back : m.TokenPrev a = e := ring.prev_first rfl last
    have back' : m.TokenPrev b = e' := ring'.prev_first rfl last'
    have other : a ≠ b := fun same => apart List.mem_cons_self (same ▸ List.mem_cons_self)
    have other' : e ≠ e' := fun same =>
      apart (List.mem_of_getLast? last) (same ▸ List.mem_of_getLast? last')
    simp only [f_TokenAppend, List.headD_cons, if_neg a_null, back, back']
    refine ⟨rfl, ?_, ring.splice ring' apart ?_ ?_ ?_ ?_ (List.cons_ne_nil _ _) some_left⟩
    · exact fun mem => (List.mem_append.mp mem).elim null null'
    · intro z off off'
      have : z ≠ e := fun same => off (same ▸ last)
      have : z ≠ e' := fun same => off' (same ▸ last')
      simp [Memory.links, Memory.setNext, Memory.setPrev, *]
    · intro z off off'
      have : z ≠ a := fun same => off (same ▸ rfl)
      have : z ≠ b := fun same => off' (same ▸ rfl)
      simp [Memory.links, Memory.setNext, Memory.setPrev, *]
    · intro z is_last c is_first
      obtain rfl := Option.mem_unique is_last last
      obtain rfl := Option.mem_unique is_first rfl
      exact ⟨by simp [Memory.links, Memory.setNext, Memory.setPrev, other'],
        by simp [Memory.links, Memory.setNext, Memory.setPrev]⟩
    · intro z is_last c is_first
      obtain rfl := Option.mem_unique is_last last'
      obtain rfl := Option.mem_unique is_first rfl
      exact ⟨by simp [Memory.links, Memory.setNext, Memory.setPrev],
        by simp [Memory.links, Memory.setNext, Memory.setPrev, other]⟩

/-- The ring without the token that is deleted, in the same order. -/
theorem delete_right (whole : IsRing m p l) (two : 2 ≤ l.length) (mem : t ∈ l) :
    IsRing (f_TokenDelete t m) ((l.erase t).headD NULL) (l.erase t) := by
  obtain ⟨u, v, rfl⟩ := List.append_of_mem mem
  have around := whole.ring.rotate
  rw [List.cons_append] at around
  have nodup := whole.ring.nodup
  have not_front : t ∉ u := fun front => (List.nodup_append'.mp nodup).2.2 front List.mem_cons_self
  rw [List.erase_append_right _ not_front, List.erase_cons_head]
  refine ⟨rfl, fun null => whole.null ?_, RingLinks.Ring.rotate ?_⟩
  · exact (List.mem_append.mp null).elim (List.mem_append_left _) fun back =>
      List.mem_append_right _ (List.mem_cons_of_mem t back)
  · have some_left : v ++ u ≠ [] := by
      intro none
      obtain ⟨rfl, rfl⟩ := List.append_eq_nil_iff.mp none
      simp at two
    generalize v ++ u = w at around some_left
    obtain ⟨b, w, rfl⟩ := List.exists_cons_of_ne_nil some_left
    obtain ⟨e, last⟩ : ∃ e, e ∈ (b :: w).getLast? :=
      ⟨_, List.getLast?_eq_some_getLast (List.cons_ne_nil b w)⟩
    have next : m.TokenNext t = b := RingLinks.Ring.next_eq (u := []) around
    have prev : m.TokenPrev t = e := around.prev_first rfl (by simpa using last)
    refine around.unlink_first some_left ?_ ?_ ?_
    · intro z off
      have : z ≠ e := fun same => off (same ▸ last)
      simp [Memory.links, f_TokenDelete, Memory.setNext, Memory.setPrev, *]
    · intro z off
      have : z ≠ b := fun same => off (same ▸ rfl)
      simp [Memory.links, f_TokenDelete, Memory.setNext, Memory.setPrev, *]
    · intro z is_last c is_first
      obtain rfl := Option.mem_unique is_last last
      obtain rfl := Option.mem_unique is_first rfl
      exact ⟨by simp [Memory.links, f_TokenDelete, Memory.setNext, Memory.setPrev, next, prev],
        by simp [Memory.links, f_TokenDelete, Memory.setNext, Memory.setPrev, next, prev]⟩

/-! ### New tokens -/

/-- The token has been handed out: it is in a block, and in the last one behind those that are
left. -/
def Pool.Allocated (m : Pool) (p : Nat) : Prop :=
  0 < p ∧ p ≤ 1000 * m.iTokenFreeMallocArray ∧
    (p < m.TokenFreeMalloc ∨ m.TokenFreeMalloc + m.iTokenFreeMalloc ≤ p)

/-- The token is in use. -/
def Pool.Live (m : Pool) (p : Nat) : Prop := m.Allocated p ∧ p ∉ m.TokenFree_m

/-- What `f_TokenCreate` and `f_TokenFree` keep. -/
structure Pool.WF (m : Pool) : Prop where
  free_nodup : m.TokenFree_m.Nodup
  free_old : ∀ p ∈ m.TokenFree_m, m.Allocated p
  left : m.iTokenFreeMalloc ≤ 1000
  blocks : m.iTokenFreeMallocArray ≤ 100
  none_yet : m.iTokenFreeMallocArray = 0 → m.iTokenFreeMalloc = 0

/-- How many tokens can be created. -/
def Pool.room (m : Pool) : Nat :=
  m.TokenFree_m.length + m.iTokenFreeMalloc + 1000 * (100 - m.iTokenFreeMallocArray)

/-- A new token: it was not in use, it is a ring of its own, and nothing else is touched. -/
structure Creates (m : Memory) (p : Nat) (m' : Memory) : Prop where
  fresh : ¬ m.Live p
  null : p ≠ NULL
  wf : m'.WF
  live : ∀ q, m'.Live q ↔ q = p ∨ m.Live q
  room : m'.room + 1 = m.room
  next : m'.TokenNext p = p
  prev : m'.TokenPrev p = p
  init : (m'.token p).iParameter = -1
  same : ∀ q, q ≠ p → m'.TokenNext q = m.TokenNext q ∧ m'.TokenPrev q = m.TokenPrev q ∧
    m'.token q = m.token q

theorem initToken_same (other : q ≠ p) : (initToken p m).TokenNext q = m.TokenNext q ∧
    (initToken p m).TokenPrev q = m.TokenPrev q ∧ (initToken p m).token q = m.token q := by
  simp [initToken, Memory.setNext, Memory.setPrev, Memory.setToken, other]

theorem initToken_next : (initToken p m).TokenNext p = p := Function.update_self ..

theorem initToken_prev : (initToken p m).TokenPrev p = p := Function.update_self ..

theorem initToken_init : ((initToken p m).token p).iParameter = -1 := by
  have set : (initToken p m).token p = { m.token p with keyword := 0, iParameter := -1 } :=
    Function.update_self ..
  rw [set]

theorem creates_freed {free : List Nat} (wf : m.WF) (freed : m.TokenFree_m = p :: free) :
    Creates m p (initToken p { m with TokenFree_m := free }) := by
  have mem : p ∈ m.TokenFree_m := by rw [freed]; exact List.mem_cons_self
  have nodup := wf.free_nodup
  rw [freed] at nodup
  refine ⟨fun live => live.2 mem, ?_, ?_, ?_, ?_, initToken_next, initToken_prev,
    initToken_init, fun q other => initToken_same other⟩
  · exact Nat.pos_iff_ne_zero.mp (wf.free_old p mem).1
  · refine ⟨(List.nodup_cons.mp nodup).2, fun q known => ?_, wf.left, wf.blocks, wf.none_yet⟩
    exact wf.free_old q (by rw [freed]; exact List.mem_cons_of_mem p known)
  · intro q
    have kept : (initToken p { m with TokenFree_m := free }).Live q ↔ m.Allocated q ∧ q ∉ free :=
      Iff.rfl
    rw [kept, Pool.Live, freed, List.mem_cons]
    constructor
    · rintro ⟨old, used⟩
      by_cases same : q = p
      · exact Or.inl same
      · exact Or.inr ⟨old, fun free => free.elim same used⟩
    · rintro (rfl | ⟨old, used⟩)
      · exact ⟨wf.free_old q mem, (List.nodup_cons.mp nodup).1⟩
      · exact ⟨old, fun free => used (Or.inr free)⟩
  · have kept : (initToken p { m with TokenFree_m := free }).room =
        free.length + m.iTokenFreeMalloc + 1000 * (100 - m.iTokenFreeMallocArray) := rfl
    rw [kept, Pool.room, freed, List.length_cons]
    omega

theorem creates_next (wf : m.WF) (none_free : m.TokenFree_m = []) (left : 0 < m.iTokenFreeMalloc) :
    Creates m (m.TokenFreeMalloc + (m.iTokenFreeMalloc - 1))
      (initToken (m.TokenFreeMalloc + (m.iTokenFreeMalloc - 1))
        { m with iTokenFreeMalloc := m.iTokenFreeMalloc - 1 }) := by
  have within := wf.left
  have some_block : m.iTokenFreeMallocArray ≠ 0 := fun none => by
    have := wf.none_yet none
    omega
  have base : m.TokenFreeMalloc = 1000 * (m.iTokenFreeMallocArray - 1) + 1 := rfl
  refine ⟨?_, Nat.pos_iff_ne_zero.mp (by omega), ?_, ?_, ?_, initToken_next, initToken_prev,
    initToken_init, fun q other => initToken_same other⟩
  · rintro ⟨⟨-, -, before | behind⟩, -⟩ <;> omega
  · refine ⟨wf.free_nodup, fun q known => ?_, ?_, wf.blocks, fun none => absurd none some_block⟩
    · have known : q ∈ m.TokenFree_m := known
      rw [none_free] at known
      cases known
    · exact Nat.le_trans (Nat.sub_le _ _) within
  · intro q
    have kept : ∀ p : Nat, (initToken p { m with iTokenFreeMalloc := m.iTokenFreeMalloc - 1 }).Live q ↔
        (0 < q ∧ q ≤ 1000 * m.iTokenFreeMallocArray ∧ (q < m.TokenFreeMalloc ∨
          m.TokenFreeMalloc + (m.iTokenFreeMalloc - 1) ≤ q)) ∧ q ∉ m.TokenFree_m := fun _ => Iff.rfl
    rw [kept, Pool.Live, Pool.Allocated, none_free]
    simp only [List.not_mem_nil, not_false_eq_true, and_true]
    omega
  · have kept : ∀ p : Nat, (initToken p { m with iTokenFreeMalloc := m.iTokenFreeMalloc - 1 }).room =
        m.TokenFree_m.length + (m.iTokenFreeMalloc - 1) +
          1000 * (100 - m.iTokenFreeMallocArray) := fun _ => rfl
    rw [kept, Pool.room]
    omega

/-- The first token of a new block, behind which nothing was handed out. -/
theorem creates_in_block (none_free : m.TokenFree_m = [])
    (used_up : m.iTokenFreeMalloc = 0) (entry : m.iTokenFreeMallocArray < 100)
    (block : m' = { m with
      iTokenFreeMalloc := 1000, iTokenFreeMallocArray := m.iTokenFreeMallocArray + 1 }) :
    Creates m (m'.TokenFreeMalloc + (m'.iTokenFreeMalloc - 1))
      (initToken (m'.TokenFreeMalloc + (m'.iTokenFreeMalloc - 1))
        { m' with iTokenFreeMalloc := m'.iTokenFreeMalloc - 1 }) := by
  have base : m.TokenFreeMalloc = 1000 * (m.iTokenFreeMallocArray - 1) + 1 := rfl
  have base' : m'.TokenFreeMalloc = 1000 * m.iTokenFreeMallocArray + 1 := by rw [block]; rfl
  have left : m'.iTokenFreeMalloc = 1000 := by rw [block]
  have blocks : m'.iTokenFreeMallocArray = m.iTokenFreeMallocArray + 1 := by rw [block]
  have free : m'.TokenFree_m = [] := by rw [block]; exact none_free
  have live (q : Nat) : m'.Live q ↔ m.Live q := by
    simp only [Pool.Live, Pool.Allocated, free, none_free, left, blocks, base, base', used_up,
      List.not_mem_nil, not_false_eq_true, and_true]
    omega
  have wf' : m'.WF := by
    refine ⟨by simp [free], by simp [free], by omega, by omega, by omega⟩
  have created := creates_next wf' free (by omega)
  refine { created with
    fresh := fun old => created.fresh ((live _).mpr old)
    live := fun q => (created.live q).trans (or_congr_right (live q))
    room := ?_
    same := fun q other => ?_ }
  · rw [created.room, Pool.room, Pool.room, free, left, blocks, none_free, used_up]
    omega
  · have := created.same q other
    rw [block] at this ⊢
    exact this

/-- A token is created exactly if there is room for one. -/
theorem f_TokenCreate_spec (wf : m.WF) :
    (m.room = 0 → f_TokenCreate m = none) ∧
      (0 < m.room → ∃ p m', f_TokenCreate m = some (p, m') ∧ Creates m p m') := by
  unfold f_TokenCreate
  cases freed : m.TokenFree_m with
  | cons p free =>
    refine ⟨fun none => ?_, fun _ => ⟨p, _, rfl, creates_freed wf freed⟩⟩
    simp [Pool.room, freed] at none
  | nil =>
    dsimp only
    unfold newBlock
    by_cases used_up : m.iTokenFreeMalloc = 0
    · rw [if_pos used_up]
      have left : m.room = 1000 * (100 - m.iTokenFreeMallocArray) := by
        simp [Pool.room, freed, used_up]
      by_cases entry : m.iTokenFreeMallocArray < 100
      · rw [if_pos entry]
        refine ⟨fun none => by omega, fun _ => ⟨_, _, rfl, ?_⟩⟩
        exact creates_in_block freed used_up entry rfl
      · rw [if_neg entry]
        exact ⟨fun _ => rfl, fun some_room => by omega⟩
    · rw [if_neg used_up]
      refine ⟨fun none => ?_, fun _ => ⟨_, _, rfl, ?_⟩⟩
      · rw [Pool.room] at none
        omega
      · exact creates_next wf freed (Nat.pos_of_ne_zero used_up)

/-! ### Merging -/

theorem IsRing.congr (whole : IsRing m p l)
    (same : ∀ t ∈ l, m'.TokenNext t = m.TokenNext t ∧ m'.TokenPrev t = m.TokenPrev t) :
    IsRing m' p l := by
  obtain ⟨first, null, ring⟩ := whole
  refine ⟨first, null, ring.nodup, RingLinks.chain_congr ring.nodup ring.chain
    (fun x mem _ => (same x mem).1) fun y mem => (same y (List.mem_of_mem_tail mem)).2, ?_⟩
  intro e last a is_first
  have link := ring.closes e last a is_first
  exact ⟨(same e (List.mem_of_getLast? last)).1.trans link.1,
    (same a (List.mem_of_head? is_first)).2.trans link.2⟩

/-- Appending leaves the tokens and what is kept of them alone. -/
theorem append_frame : (f_TokenAppend p q m).2.token = m.token ∧
    (f_TokenAppend p q m).2.toPool = m.toPool := by
  unfold f_TokenAppend
  split <;> exact ⟨rfl, rfl⟩

/-- It sets links of the two rings alone. -/
theorem append_same (one : IsRing m p l) (two : IsRing m q l') (some_left : l' ≠ [])
    (off : x ∉ l) (off' : x ∉ l') : (f_TokenAppend p q m).2.TokenNext x = m.TokenNext x ∧
      (f_TokenAppend p q m).2.TokenPrev x = m.TokenPrev x := by
  have ends {k : Nat} {w : List Nat} (ring : IsRing m k w) (some_in : w ≠ []) :
      k ∈ w ∧ m.TokenPrev k ∈ w := by
    obtain ⟨a, w, rfl⟩ := List.exists_cons_of_ne_nil some_in
    have is_first : k ∈ (a :: w).head? := congrArg some ring.first.symm
    have last := List.getLast?_eq_some_getLast (List.cons_ne_nil a w)
    have back : m.TokenPrev k = _ := ring.ring.prev_first is_first last
    rw [back]
    exact ⟨List.mem_of_head? is_first, List.getLast_mem _⟩
  unfold f_TokenAppend
  split
  next => exact ⟨rfl, rfl⟩
  next some_p =>
    have some_in : l ≠ [] := by
      rintro rfl
      exact some_p one.first
    obtain ⟨mem, mem_back⟩ := ends one some_in
    obtain ⟨mem', mem_back'⟩ := ends two some_left
    have : x ≠ p := fun same => off (same ▸ mem)
    have : x ≠ q := fun same => off' (same ▸ mem')
    have : x ≠ m.TokenPrev p := fun same => off (same ▸ mem_back)
    have : x ≠ m.TokenPrev q := fun same => off' (same ▸ mem_back')
    simp [Memory.setNext, Memory.setPrev, *]

/-- A token without its `mode`, which copies do not have. -/
def plain (t : Token) : Token := { t with mode := .FALSE }

/-- While `f_MacroMerge` runs: the ring made so far consists of new tokens, and nothing that was in
use has changed. -/
structure Merging (m₀ : Memory) (r : Nat) (m : Memory) (done : List Token) : Prop where
  wf : m.WF
  ring : ∃ l, IsRing m r l ∧ (∀ t ∈ l, m.Live t ∧ ¬ m₀.Live t) ∧
    l.map (fun t => plain (m.token t)) = done
  old : ∀ t, m₀.Live t → m.Live t ∧ m.TokenNext t = m₀.TokenNext t ∧
    m.TokenPrev t = m₀.TokenPrev t ∧ m.token t = m₀.token t
  room : m.room + done.length = m₀.room

/-- One more token at the end of the ring. -/
theorem Merging.append {done : List Token} {new : Token} (merging : Merging m₀ r m done)
    (created : Creates m p m') :
    Merging m₀ (f_TokenAppend r p (m'.setToken p new)).1 (f_TokenAppend r p (m'.setToken p new)).2
      (done ++ [plain new]) := by
  obtain ⟨l, ring, fresh, tokens⟩ := merging.ring
  have apart : p ∉ l := fun mem => created.fresh (fresh p mem).1
  have other {t : Nat} (mem : t ∈ l) : t ≠ p := fun same => apart (same ▸ mem)
  have one : IsRing (m'.setToken p new) r l := ring.congr fun t mem =>
    ⟨(created.same t (other mem)).1, (created.same t (other mem)).2.1⟩
  have two : IsRing (m'.setToken p new) p [p] :=
    ⟨rfl, fun mem => created.null (List.mem_singleton.mp mem).symm, List.nodup_singleton p,
      .singleton p, fun e last a first => by
        obtain rfl := Option.some.inj last
        obtain rfl := Option.some.inj first
        exact ⟨created.next, created.prev⟩⟩
  obtain ⟨token, pool⟩ := append_frame (p := r) (q := p) (m := m'.setToken p new)
  have pool' : (m'.setToken p new).toPool = m'.toPool := rfl
  have written : (m'.setToken p new).token p = new := Function.update_self ..
  have unwritten {t : Nat} (other : t ≠ p) : (m'.setToken p new).token t = m.token t :=
    (Function.update_of_ne other ..).trans (created.same t other).2.2
  refine ⟨?_, ⟨l ++ [p], append_right one two (by simp) (by simpa using apart), ?_, ?_⟩, ?_, ?_⟩
  · rw [pool, pool']
    exact created.wf
  · intro t mem
    rw [pool, pool', created.live]
    rcases List.mem_append.mp mem with mem | mem
    · exact ⟨Or.inr (fresh t mem).1, (fresh t mem).2⟩
    · obtain rfl := List.mem_singleton.mp mem
      exact ⟨Or.inl rfl, fun old => created.fresh (merging.old t old).1⟩
  · rw [token, List.map_append, List.map_singleton, ← tokens]
    congr 1
    · refine List.map_congr_left fun t mem => ?_
      rw [unwritten (other mem)]
    · rw [written]
  · intro t live
    obtain ⟨live', next, prev, kept⟩ := merging.old t live
    have other : t ≠ p := fun same => created.fresh (same ▸ live')
    have off : t ∉ l := fun mem => (fresh t mem).2 live
    obtain ⟨same_next, same_prev, -⟩ := created.same t other
    obtain ⟨appended_next, appended_prev⟩ :=
      append_same one two (by simp) off (by simpa using other)
    rw [pool, pool', created.live, appended_next, appended_prev, token, unwritten other]
    exact ⟨Or.inr live', same_next.trans next, same_prev.trans prev, kept⟩
  · have := created.room
    have := merging.room
    rw [pool, pool', List.length_append, List.length_singleton]
    omega

/-- The step appends copies of these tokens, exactly if there is room for them. -/
def Copies (m₀ : Memory) (step : Nat × Memory → Option (Nat × Memory)) (ts : List Token) : Prop :=
  ∀ r m done, Merging m₀ r m done →
    (ts.length ≤ m.room → ∃ r' m', step (r, m) = some (r', m') ∧ Merging m₀ r' m' (done ++ ts)) ∧
    (m.room < ts.length → step (r, m) = none)

theorem copies_nil : Copies m₀ some [] := by
  intro r m done merging
  refine ⟨fun _ => ⟨r, m, rfl, ?_⟩, fun less => absurd less (Nat.not_lt_zero _)⟩
  rwa [List.append_nil]

theorem Copies.bind {step next : Nat × Memory → Option (Nat × Memory)} {ts ts' : List Token}
    (first : Copies m₀ step ts) (second : Copies m₀ next ts') :
    Copies m₀ (fun s => (step s).bind next) (ts ++ ts') := by
  intro r m done merging
  obtain ⟨goes, stops⟩ := first r m done merging
  rw [List.length_append]
  by_cases enough : ts.length ≤ m.room
  · obtain ⟨r', m', stepped, merging'⟩ := goes enough
    obtain ⟨goes', stops'⟩ := second r' m' _ merging'
    have := merging.room
    have := merging'.room
    rw [List.length_append] at this
    simp only [stepped, Option.bind_some]
    refine ⟨fun le => ?_, fun less => stops' (by omega)⟩
    rw [← List.append_assoc]
    exact goes' (by omega)
  · refine ⟨fun le => by omega, fun _ => ?_⟩
    simp only [stops (by omega), Option.bind_none]

/-- The creation of a token with what is put into it. -/
theorem copies_create (new : Memory → Nat → Token) {t : Token}
    (content : ∀ m m' p, (∀ q, m₀.Live q → m.Live q ∧ m.token q = m₀.token q) → Creates m p m' →
      plain (new m' p) = t) :
    Copies m₀ (fun s => (f_TokenCreate s.2).map fun c =>
      f_TokenAppend s.1 c.1 (c.2.setToken c.1 (new c.2 c.1))) [t] := by
  intro r m done merging
  obtain ⟨stops, goes⟩ := f_TokenCreate_spec merging.wf
  refine ⟨fun one => ?_, fun less => ?_⟩
  · obtain ⟨p, m', created, creates⟩ := goes one
    have same := content m m' p (fun q live =>
      ⟨(merging.old q live).1, (merging.old q live).2.2.2⟩) creates
    rw [← same]
    exact ⟨_, _, by simp only [created, Option.map_some], merging.append creates⟩
  · simp only [stops (by simpa using less), Option.map_none]

/-! ### The loops -/

/-- A ring of tokens in use. -/
def LiveRing (m : Memory) (p : Nat) (l : List Nat) : Prop := IsRing m p l ∧ ∀ t ∈ l, m.Live t

theorem whileToken_null {body : Nat → Nat × Memory → Option (Nat × Memory)} (enough : 0 < fuel)
    (s : Nat × Memory) : whileToken Prod.snd body p fuel NULL s = some s := by
  obtain ⟨fuel, rfl⟩ := Nat.exists_eq_succ_of_ne_zero (Nat.ne_of_gt enough)
  rfl

/-- A loop over a ring whose body copies tokens. -/
theorem whileToken_copies {body : Nat → Nat × Memory → Option (Nat × Memory)}
    {copies : Nat → List Token} (whole : LiveRing m₀ p l)
    (each : ∀ t ∈ l, Copies m₀ (body t) (copies t)) (enough : l.length < fuel) :
    Copies m₀ (whileToken Prod.snd body p fuel p) (l.flatMap copies) := by
  obtain ⟨⟨first, null, ring⟩, live⟩ := whole
  -- from a token of the ring on, to its end
  have behind : ∀ (v u : List Nat) (x fuel : Nat), l = u ++ x :: v → v.length + 1 < fuel →
      Copies m₀ (whileToken Prod.snd body p fuel x) ((x :: v).flatMap copies) := by
    intro v
    induction v with
    | nil =>
      rintro u x (_ | fuel) parts below
      · omega
      · have mem : x ∈ l := by rw [parts]; simp
        have last : m₀.TokenNext x = p := by
          subst parts
          refine RingLinks.Ring.next_last ring ?_
          cases u <;> exact congrArg some first.symm
        have some_p : p ≠ NULL := by
          rw [first, parts]
          cases u with
          | nil => exact fun same => null (same ▸ mem)
          | cons c u => exact fun same => null (by rw [parts, ← same]; exact List.mem_cons_self)
        intro r m done merging
        obtain ⟨-, next, -⟩ := merging.old x (live x mem)
        have some_x : x ≠ NULL := fun same => null (same ▸ mem)
        rw [whileToken, if_neg some_x]
        simp only [next, last, if_neg some_p, if_true]
        have ends := (each x mem).bind copies_nil
        rw [List.append_nil] at ends
        simp only [whileToken_null (show 0 < fuel by omega), List.flatMap_cons, List.flatMap_nil,
          List.append_nil]
        exact ends r m done merging
    | cons y v ih =>
      rintro u x (_ | fuel) parts below
      · omega
      · have mem : x ∈ l := by rw [parts]; simp
        have mem' : y ∈ l := by rw [parts]; simp
        have follows : m₀.TokenNext x = y := by
          subst parts
          exact RingLinks.Ring.next_eq ring
        have some_y : y ≠ NULL := fun same => null (same ▸ mem')
        have not_first : y ≠ p := by
          have nodup := ring.nodup
          rw [parts] at nodup
          rintro rfl
          rw [parts] at first
          cases u with
          | nil =>
            obtain rfl : y = x := first
            exact (List.nodup_cons.mp nodup).1 List.mem_cons_self
          | cons c u =>
            obtain rfl : y = c := first
            exact (List.nodup_cons.mp nodup).1 (by simp)
        intro r m done merging
        obtain ⟨-, next, -⟩ := merging.old x (live x mem)
        have some_x : x ≠ NULL := fun same => null (same ▸ mem)
        rw [whileToken, if_neg some_x]
        simp only [next, follows, if_neg some_y, if_neg not_first]
        have rest := ih (u ++ [x]) y fuel (by rw [parts]; simp) (by simpa using below)
        exact (each x mem).bind rest r m done merging
  cases l with
  | nil =>
    obtain rfl : p = NULL := first
    have stays : whileToken Prod.snd body NULL fuel NULL = some :=
      funext (whileToken_null (by omega))
    rw [stays]
    exact copies_nil
  | cons a l =>
    obtain rfl : p = a := first
    exact behind l [] p fuel rfl enough

theorem mergeArgument_copies (whole : LiveRing m₀ p l) (enough : l.length < fuel) :
    Copies m₀ (mergeArgument fuel p) ((l.map m₀.token).map plain) := by
  have each : ∀ t ∈ l, Copies m₀ (fun r => (f_TokenDuplicate t r.2).map fun new =>
      f_TokenAppend r.1 new.1 new.2) [plain (m₀.token t)] := by
    intro t mem
    simp only [f_TokenDuplicate, Option.map_map, Function.comp_def]
    refine copies_create (fun m p => { m.token t with mode := (m.token p).mode }) ?_
    intro m m' p same creates
    have other : t ≠ p := fun equal => creates.fresh (equal ▸ (same t (whole.2 t mem)).1)
    rw [(creates.same t other).2.2, (same t (whole.2 t mem)).2]
    rfl
  have looped := whileToken_copies whole each enough
  rw [List.map_map, List.map_eq_flatMap]
  exact looped

theorem mergeToken_copies (basic : m₀.Live p) (live : m₀.Live t) :
    Copies m₀ (mergeToken p t) [Process.mergeToken.merged (m₀.token p) (m₀.token t)] := by
  refine copies_create (fun m q =>
    { m.token q with
      lex := (m.token t).lex, text := (m.token t).text, keyword := (m.token t).keyword
      is_cpp := (m.token t).is_cpp, lineno_beg := (m.token p).lineno_beg
      charno_beg := (m.token p).charno_beg, lineno_end := (m.token p).lineno_end
      charno_end := (m.token p).charno_end }) ?_
  intro m m' q same creates
  have other : t ≠ q := fun equal => creates.fresh (equal ▸ (same t live).1)
  have other' : p ≠ q := fun equal => creates.fresh (equal ▸ (same p basic).1)
  rw [(creates.same t other).2.2, (same t live).2, (creates.same p other').2.2, (same p basic).2]
  simp only [plain, creates.init, Process.mergeToken.merged]

/-! ### The merged ring -/

/-- The rings of the arguments, if there is a list of arguments. -/
def LiveParam (m : Memory) : Option Param → Option (List (List Nat)) → Prop :=
  Option.Rel (List.Forall₂ (LiveRing m))

/-- What the list model of `f_MacroMerge` makes of the tokens of the rings. -/
def expansion (m : Memory) (body : List Nat) (TokenBasic : Nat)
    (arguments : Option (List (List Nat))) : List Token :=
  Process.f_MacroMerge { typ := .CPP_MACRO, Token := body.map m.token } (m.token TokenBasic)
    (arguments.map fun ls => ls.map fun l => l.map m.token)

variable {body : List Nat} {Param : Option Param} {arguments : Option (List (List Nat))}
  {Macro : Macro} {TokenBasic : Nat} {bProcessed : Bool}

theorem position_ring {ps : List Nat} {ls : List (List Nat)}
    (rings : List.Forall₂ (LiveRing m) ps ls) (i : Nat) :
    LiveRing m (f_ParameterPosition ps i) ((ls[i]?).getD []) := by
  induction rings generalizing i with
  | nil => exact ⟨⟨rfl, by simp, List.nodup_nil, .nil, by simp⟩, by simp⟩
  | cons ring _ ih =>
    cases i with
    | zero => exact ring
    | succ i => exact ih i

theorem length_getD_le {ls : List (List Nat)} (i : Nat) :
    ((ls[i]?).getD []).length ≤ ls.flatten.length := by
  cases found : ls[i]? with
  | none => exact Nat.zero_le _
  | some l => exact (List.sublist_flatten_of_mem (List.mem_of_getElem? found)).length_le

theorem mergeBody_copies (params : LiveParam m₀ Param arguments)
    (enough : ∀ ls, arguments = some ls → ls.flatten.length < fuel) (basic : m₀.Live TokenBasic)
    (live : m₀.Live t) :
    Copies m₀ (mergeBody fuel TokenBasic Param t)
      ((Process.mergeToken (m₀.token TokenBasic)
        (arguments.map fun ls => ls.map fun l => l.map m₀.token) (m₀.token t)).map plain) := by
  have copied := mergeToken_copies basic live
  cases params with
  | none => exact copied
  | @some ps ls rings =>
    intro r m done merging
    have same := (merging.old t live).2.2.2
    simp only [mergeBody, same, Option.map_some, Process.mergeToken]
    split
    next position =>
      have argument := position_ring rings (m₀.token t).iParameter.toNat
      have below := (length_getD_le (m₀.token t).iParameter.toNat).trans_lt (enough ls rfl)
      have looped := mergeArgument_copies argument below r m done merging
      have tokens : Process.f_ParameterPosition (ls.map fun l => l.map m₀.token)
          (m₀.token t).iParameter.toNat =
            ((ls[(m₀.token t).iParameter.toNat]?).getD []).map m₀.token := by
        rw [Process.f_ParameterPosition, List.getElem?_map]
        cases ls[(m₀.token t).iParameter.toNat]? <;> rfl
      rw [tokens]
      exact looped
    next => exact copied r m done merging

theorem f_MacroMerge_copies (fuel : Nat) (wf : m.WF)
    (whole : LiveRing m (if bProcessed then Macro.TokenProcessed else Macro.Token) body)
    (params : LiveParam m Param arguments) (basic : m.Live TokenBasic)
    (enough : ∀ ls, arguments = some ls → ls.flatten.length < fuel)
    (enough' : body.length < fuel) :
    ((expansion m body TokenBasic arguments).length ≤ m.room → ∃ r m',
      f_MacroMerge fuel Macro TokenBasic Param bProcessed m = some (r, m') ∧
      Merging m r m' ((expansion m body TokenBasic arguments).map plain)) ∧
    (m.room < (expansion m body TokenBasic arguments).length →
      f_MacroMerge fuel Macro TokenBasic Param bProcessed m = none) := by
  have start : Merging m NULL m [] :=
    ⟨wf, ⟨[], ⟨rfl, by simp, List.nodup_nil, .nil, by simp⟩, by simp, rfl⟩,
      fun t live => ⟨live, rfl, rfl, rfl⟩, rfl⟩
  have looped := whileToken_copies whole
    (fun t mem => mergeBody_copies params enough basic (whole.2 t mem)) enough'
  have tokens : (expansion m body TokenBasic arguments).map plain = body.flatMap fun t =>
      (Process.mergeToken (m.token TokenBasic)
        (arguments.map fun ls => ls.map fun l => l.map m.token) (m.token t)).map plain := by
    simp [expansion, Process.f_MacroMerge, List.map_flatMap, List.flatMap_map]
  have result := looped NULL m [] start
  rw [← tokens, List.nil_append, List.length_map] at result
  exact result

theorem whileToken_mono {step step' : Nat → Nat × Memory → Option (Nat × Memory)} {s s' : Nat × Memory}
    (more : ∀ t s s', step t s = some s' → step' t s = some s')
    (found : whileToken Prod.snd step p fuel t s = some s') :
    whileToken Prod.snd step' p (fuel + 1) t s = some s' := by
  induction fuel generalizing t s with
  | zero => cases found
  | succ fuel ih =>
    rw [whileToken] at found ⊢
    split at found
    next none_left => rwa [if_pos none_left]
    next token =>
      rw [if_neg token]
      dsimp only at found ⊢
      split at found
      next none_next => rwa [if_pos none_next]
      next some_next =>
        rw [if_neg some_next]
        obtain ⟨s₁, stepped, rest⟩ := Option.bind_eq_some_iff.mp found
        rw [more _ _ _ stepped, Option.bind_some]
        exact ih rest

theorem f_MacroMerge_mono :
    Mono fun fuel => f_MacroMerge fuel Macro TokenBasic Param bProcessed m := by
  intro fuel result found
  refine whileToken_mono (fun t s s' stepped => ?_) found
  unfold mergeBody at stepped ⊢
  split at stepped
  next ps =>
    split at stepped
    next parameter =>
      rw [if_pos parameter]
      exact whileToken_mono (fun _ _ _ same => same) stepped
    next other => rwa [if_neg other]
  next => exact stepped

/-- `f_MacroMerge` returns a ring of new tokens with the contents of these, and leaves every token in
use with its links as it is. -/
def Merges (m : Memory) (Macro : TokenRing.Macro) (TokenBasic : Nat) (Param : Option TokenRing.Param)
    (bProcessed : Bool) (ts : List Token) : Prop :=
  ∃ r m' l, Returns (fun fuel => f_MacroMerge fuel Macro TokenBasic Param bProcessed m) (r, m') ∧
    LiveRing m' r l ∧ (∀ t ∈ l, ¬ m.Live t) ∧
    l.map (fun t => plain (m'.token t)) = ts.map plain ∧
    ∀ t, m.Live t → m'.Live t ∧ m'.TokenNext t = m.TokenNext t ∧ m'.TokenPrev t = m.TokenPrev t ∧
      m'.token t = m.token t

theorem merges_iff (wf : m.WF)
    (whole : LiveRing m (if bProcessed then Macro.TokenProcessed else Macro.Token) body)
    (params : LiveParam m Param arguments) (basic : m.Live TokenBasic) :
    Merges m Macro TokenBasic Param bProcessed (expansion m body TokenBasic arguments) ↔
      (expansion m body TokenBasic arguments).length ≤ m.room := by
  have merged (fuel : Nat) := f_MacroMerge_copies fuel wf whole params basic
  set bound := ((arguments.getD []).flatten.length + body.length + 1) with bound_eq
  have result := merged bound
    (fun ls is => by rw [bound_eq, is, Option.getD_some]; omega) (by omega)
  constructor
  · rintro ⟨r, m', l, returns, -⟩
    by_contra less
    obtain ⟨fuel, found⟩ := returns
    have later := f_MacroMerge_mono.le (Nat.le_add_right fuel bound) found
    have stuck := (merged (fuel + bound)
      (fun ls is => by rw [bound_eq, is, Option.getD_some]; omega) (by omega)).2 (by omega)
    exact nomatch stuck.symm.trans later
  · intro fits
    obtain ⟨r, m', found, merging⟩ := result.1 fits
    obtain ⟨l, ring, fresh, tokens⟩ := merging.ring
    exact ⟨r, m', l, ⟨bound, found⟩, ⟨ring, fun t mem => (fresh t mem).1⟩,
      fun t mem => (fresh t mem).2, tokens, merging.old⟩

/-- Appending a ring to another one, or to no token, concatenates them. -/
def Appends (m : Memory) : Prop :=
  ∀ p q l l', IsRing m p l → IsRing m q l' → l' ≠ [] → l.Disjoint l' →
    IsRing (f_TokenAppend p q m).2 (f_TokenAppend p q m).1 (l ++ l') ∧
      (f_TokenAppend p q m).2.token = m.token

/-- Deleting a token of a ring of two or more leaves the others in their order. -/
def Deletes (m : Memory) : Prop :=
  ∀ p l t, IsRing m p l → 2 ≤ l.length → t ∈ l →
    IsRing (f_TokenDelete t m) ((l.erase t).headD NULL) (l.erase t) ∧
      (f_TokenDelete t m).token = m.token

/-- So many blocks, all of whose tokens are in use, each of them a ring. -/
def singles (blocks : Nat) : Memory where
  TokenFree_m := []
  iTokenFreeMalloc := 0
  iTokenFreeMallocArray := blocks
  TokenNext p := p
  TokenPrev p := p
  token _ := { lex := SN_IDENTIFIER }

theorem singles_wf {blocks : Nat} (le : blocks ≤ 100) : (singles blocks).WF :=
  ⟨List.nodup_nil, nofun, Nat.zero_le _, le, fun _ => rfl⟩

theorem singles_live {blocks : Nat} (some_block : 0 < blocks) : (singles blocks).Live 1 := by
  refine ⟨⟨Nat.one_pos, ?_, ?_⟩, List.not_mem_nil⟩
  · change 1 ≤ 1000 * blocks
    omega
  · change 1 < 1000 * (blocks - 1) + 1 ∨ 1000 * (blocks - 1) + 1 + 0 ≤ 1
    omega

theorem singles_ring {blocks : Nat} (some_block : 0 < blocks) : LiveRing (singles blocks) 1 [1] := by
  refine ⟨⟨rfl, by decide, List.nodup_singleton 1, .singleton 1, ?_⟩, ?_⟩
  · intro e last a first
    obtain rfl := Option.some.inj last
    obtain rfl := Option.some.inj first
    exact ⟨rfl, rfl⟩
  · intro t mem
    obtain rfl := List.mem_singleton.mp mem
    exact singles_live some_block

end SourceNavigator.Cpp.TokenRing
