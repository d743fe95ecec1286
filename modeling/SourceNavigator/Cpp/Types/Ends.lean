import SourceNavigator.Cpp.Types.Reads
import Mathlib.Data.List.Infix
import Mathlib.Tactic.ByContra

/-!
When reading a type ends.

A call and a round of a loop use up a token or come to an end, with one
exception: when a round of the loop over arguments begins at the end of the
text, no type is read, no token is skipped, and the loop goes on. The functions
are gone through from the names up to the type.
-/

namespace SourceNavigator.Cpp.Types

open Lib Lib.Program

variable {α β : Type} {Q : β → List Tok → Prop} {ok stuck : List (List Tok) → Prop} {ts left : List Tok} {i n : Nat}

/-! ### Tokens that are used up -/

theorem lt_length_of_code (some : code ts i ≠ 0) : i < ts.length := by
  by_contra out
  simp [code, List.getElem?_eq_none (Nat.le_of_not_lt out)] at some

/-- Tokens behind others, with fewer of them whenever `used` holds. -/
def Behind (used : Prop) (ts left : List Tok) : Prop := left <:+ ts ∧ (used → left.length < ts.length)

theorem Behind.refl : Behind False ts ts := ⟨List.suffix_refl ts, False.elim⟩

theorem behind_drop {j : Nat} (some : code ts 0 ≠ 0) (pos : 0 < j) : Behind True ts (ts.drop j) := by
  refine ⟨List.drop_suffix j ts, fun _ => ?_⟩
  have := lt_length_of_code some
  rw [List.length_drop]
  omega

theorem Behind.trans {used used' used'' : Prop} {left' : List Tok} (first : Behind used ts left)
    (second : Behind used' left left') (follows : used'' → used ∨ used') : Behind used'' ts left' := by
  refine ⟨second.1.trans first.1, fun yes => ?_⟩
  have := first.1.length_le
  have := second.1.length_le
  cases follows yes with
  | inl yes =>
    have := first.2 yes
    omega
  | inr yes =>
    have := second.2 yes
    omega

theorem Behind.then {used : Prop} {left' : List Tok} (first : Behind True ts left)
    (second : Behind used left left') : Behind True ts left' := first.trans second .inl

theorem Behind.weaken {used used' : Prop} (behind : Behind used ts left) (follows : used' → used) :
    Behind used' ts left := ⟨behind.1, fun yes => behind.2 (follows yes)⟩

theorem Behind.length_le {used : Prop} (behind : Behind used ts left) : left.length ≤ ts.length :=
  behind.1.length_le

/-! ### Names -/

theorem ite_zero_lt {p : Prop} [Decidable p] {a b : Nat} (lt : a < b) : (if p then 0 else a) < b := by
  split
  · exact Nat.zero_lt_of_lt lt
  · exact lt

theorem reads_TemplateArgList (pname : Text) (opened : code ts 0 = chr '<') (enough : ts.length < n) :
    Reads ok stuck (TemplateArgList n pname) ts fun _ left => Behind True ts left := by
  have opening : code ts 0 ≠ 0 := by
    rw [opened]
    decide
  unfold TemplateArgList
  apply reads_step
  have first := behind_drop opening Nat.one_pos
  refine reads_loop (I := fun _ left => Behind True ts left)
    (μ := fun x left => if x.1 = 0 then 0 else left.length + 1) ?_ first ?_
  · rintro ⟨i, pname⟩ left behind
    dsimp only
    by_cases closed : i = 0
    · rw [if_pos closed]
      apply reads_pure
      exact behind
    · rw [if_neg closed]
      apply reads_token
      apply reads_ident
      apply reads_step
      apply reads_pure
      refine ⟨behind.trans ⟨List.drop_suffix 1 left, id⟩ .inl, ?_⟩
      dsimp only
      rw [if_neg closed]
      cases left with
      | nil =>
        simp only [code_nil, show ¬ 0 = chr '>' by decide, show ¬ 0 = chr '<' by decide, if_false, if_true]
        exact Nat.succ_pos _
      | cons t left => exact ite_zero_lt (Nat.lt_succ_self _)
  · have := first.2 trivial
    dsimp only
    rw [if_neg (by decide)]
    omega

theorem reads_firstComponent (ac : Text) (identifier : code ts 0 = SN_IDENTIFIER)
    (enough : ts.length < n) :
    Reads ok stuck (firstComponent n ac) ts fun _ left => Behind True ts left := by
  have some : code ts 0 ≠ 0 := by
    rw [identifier]
    decide
  have first := behind_drop some Nat.one_pos
  unfold firstComponent
  apply reads_ident
  apply reads_step
  apply reads_token
  by_cases opened : code (ts.drop 1) 0 = chr '<'
  · rw [if_pos opened]
    refine (reads_TemplateArgList _ opened (Nat.lt_of_le_of_lt first.length_le enough)).imp ?_
    intro ac left behind
    exact first.trans behind .inl
  · rw [if_neg opened]
    apply reads_pure
    exact first

theorem reads_moreComponents (ac : Text) (enough : ts.length < n) :
    Reads ok stuck (moreComponents n ac) ts fun _ left => Behind False ts left := by
  unfold moreComponents
  refine reads_loop (I := fun _ left => Behind False ts left) (μ := fun _ left => left.length) ?_
    Behind.refl enough
  intro ac left behind
  apply reads_token
  apply reads_token
  by_cases component : code left 0 = SN_CLCL ∧ code left 1 = SN_IDENTIFIER
  · rw [if_pos component]
    have colons : code left 0 ≠ 0 := by
      rw [component.1]
      decide
    have more := behind_drop colons Nat.two_pos
    apply reads_ident
    apply reads_step
    apply reads_pure
    exact ⟨behind.trans more False.elim, more.2 trivial⟩
  · rw [if_neg component]
    apply reads_pure
    exact behind

theorem reads_CompleteClassName (enough : ts.length < n) : Reads ok stuck (CompleteClassName n) ts
    fun _ left => Behind (code ts 0 = SN_IDENTIFIER) ts left := by
  have name (ac : Text) (left : List Tok) (behind : left <:+ ts) (ident : code left 0 = SN_IDENTIFIER) :
      Reads ok stuck (do
        let ac ← firstComponent n ac
        let ac ← moreComponents n ac
        pure (some ac)) left fun _ left => Behind (code ts 0 = SN_IDENTIFIER) ts left := by
    have more := Nat.lt_of_le_of_lt behind.length_le enough
    apply reads_bind
    refine (reads_firstComponent ac ident more).imp ?_
    intro ac left' first
    apply reads_bind
    refine (reads_moreComponents ac (Nat.lt_of_le_of_lt first.length_le more)).imp ?_
    intro ac left'' second
    apply reads_pure
    exact Behind.trans ⟨behind, False.elim⟩ (first.trans second .inl) fun _ => .inr trivial
  unfold CompleteClassName leadingColons
  apply reads_save
  apply reads_bind
  apply reads_token
  by_cases colons : code ts 0 = SN_CLCL
  · rw [if_pos colons]
    apply reads_step
    apply reads_pure
    apply reads_token
    by_cases ident : code (ts.drop 1) 0 = SN_IDENTIFIER
    · rw [if_pos ident]
      exact name _ _ (List.drop_suffix 1 ts) ident
    · rw [if_neg ident]
      apply reads_restore
      apply reads_pure
      exact Behind.refl.weaken fun ident => absurd (colons.symm.trans ident) (by decide)
  · rw [if_neg colons]
    apply reads_pure
    apply reads_token
    by_cases ident : code ts 0 = SN_IDENTIFIER
    · rw [if_pos ident]
      exact name _ _ (List.suffix_refl ts) ident
    · rw [if_neg ident]
      apply reads_restore
      apply reads_pure
      exact Behind.refl.weaken ident

/-! ### Operators -/

theorem reads_CvQualifierList (enough : ts.length < n) :
    Reads ok stuck (CvQualifierList n) ts fun _ left => Behind False ts left := by
  unfold CvQualifierList
  refine reads_loop (I := fun _ left => Behind False ts left) (μ := fun _ left => left.length) ?_
    Behind.refl enough
  rintro ⟨s_const, s_volatile⟩ left behind
  dsimp only
  have qualifier (some : code left 0 ≠ 0) (cv : Bool × Bool) : Reads ok stuck (do
      TokenStep 1
      pure (.inl cv)) left fun (next : (Bool × Bool) ⊕ (Bool × Bool)) left' =>
        next.elim (fun _ => Behind False ts left' ∧ left'.length < left.length)
          fun _ => Behind False ts left' := by
    have more := behind_drop some Nat.one_pos
    apply reads_step
    apply reads_pure
    exact ⟨behind.trans more False.elim, more.2 trivial⟩
  apply reads_token
  by_cases isConst : code left 0 = SN_CONST
  · rw [if_pos isConst]
    exact qualifier (by rw [isConst]; decide) _
  · rw [if_neg isConst]
    by_cases isVolatile : code left 0 = SN_VOLATILE
    · rw [if_pos isVolatile]
      exact qualifier (by rw [isVolatile]; decide) _
    · rw [if_neg isVolatile]
      apply reads_pure
      exact behind

theorem reads_PtrOperator (enough : ts.length < n) : Reads ok stuck (PtrOperator n) ts
    fun Oper left => Behind (Oper.isSome = true) ts left := by
  have pointer (left : List Tok) (more : code left 0 ≠ 0) (behind : left <:+ ts)
      (create : Bool × Bool → Oper) :
      Reads ok stuck (do
        TokenStep 1
        let cv ← CvQualifierList n
        pure (some (create cv))) left fun Oper left => Behind (Oper.isSome = true) ts left := by
    have first := behind_drop more Nat.one_pos
    apply reads_step
    apply reads_bind
    refine (reads_CvQualifierList (by have := first.length_le; have := behind.length_le; omega)).imp ?_
    intro cv left' second
    apply reads_pure
    exact Behind.trans ⟨behind, False.elim⟩ (first.trans second .inl) fun _ => .inr trivial
  have stays : Behind (Option.isSome (none : Option Oper) = true) ts ts := Behind.refl.weaken (by decide)
  unfold PtrOperator
  apply reads_save
  apply reads_token
  by_cases star : code ts 0 = chr '*'
  · rw [if_pos star]
    exact pointer ts (by rw [star]; decide) (List.suffix_refl ts) fun cv => .POINTER_STAR cv.1 cv.2 none
  · rw [if_neg star]
    by_cases ampersand : code ts 0 = chr '&'
    · rw [if_pos ampersand]
      exact pointer ts (by rw [ampersand]; decide) (List.suffix_refl ts) fun cv =>
        .POINTER_AMPERSAND cv.1 cv.2
    · rw [if_neg ampersand]
      by_cases name : code ts 0 = SN_IDENTIFIER ∨ code ts 0 = SN_CLCL
      · rw [if_pos name]
        apply reads_bind
        refine (reads_CompleteClassName enough).imp ?_
        intro Name left first
        apply reads_token
        by_cases colons : code left 0 = SN_CLCL
        · rw [if_neg (not_not.mpr colons)]
          apply reads_step
          apply reads_token
          by_cases star : code (left.drop 1) 0 = chr '*'
          · rw [if_pos star]
            exact pointer _ (by rw [star]; decide) ((List.drop_suffix 1 left).trans first.1)
              fun cv => .POINTER_STAR cv.1 cv.2 Name
          · rw [if_neg star]
            apply reads_restore
            apply reads_pure
            exact stays
        · rw [if_pos colons]
          apply reads_pure
          exact ⟨first.1, fun some => absurd some (by decide)⟩
      · rw [if_neg name]
        apply reads_restore
        apply reads_pure
        exact stays

/-! ### Arguments -/

/-- No token has the code of the end of the text. -/
def Coded (ts : List Tok) : Prop := ∀ t ∈ ts, t.iToken ≠ 0

theorem Coded.behind {used : Prop} (coded : Coded ts) (behind : Behind used ts left) : Coded left :=
  fun t among => coded t (behind.1.subset among)

theorem Coded.code_ne_zero (coded : Coded ts) (more : ts ≠ []) : code ts 0 ≠ 0 := by
  cases ts with
  | nil => exact absurd rfl more
  | cons t ts => exact coded t List.mem_cons_self

/-- The skipped tokens reach up to one at which the loop is left. -/
theorem reads_skipArgument (enough : ts.length < n) : Reads ok stuck (skipArgument n) ts fun _ left =>
    Behind False ts left ∧
      (code left 0 = chr ')' ∨ code left 0 = chr ',' ∨ code left 0 = SN_ELLIPSIS ∨ code left 0 = 0) := by
  unfold skipArgument
  refine reads_loop (I := fun _ left => Behind False ts left) (μ := fun _ left => left.length) ?_
    Behind.refl enough
  intro _ left behind
  apply reads_token
  by_cases stop : code left 0 = chr ')' ∨ code left 0 = chr ',' ∨ code left 0 = SN_ELLIPSIS ∨ code left 0 = 0
  · rw [if_pos stop]
    apply reads_pure
    exact ⟨behind, stop⟩
  · rw [if_neg stop]
    have more : code left 0 ≠ 0 := fun atEnd => stop (.inr (.inr (.inr atEnd)))
    have next := behind_drop more Nat.one_pos
    apply reads_step
    apply reads_pure
    exact ⟨behind.trans next False.elim, next.2 trivial⟩

/-- No round of the loop over arguments has begun at the end of the text. -/
abbrev NoneAtEnd (rounds : List (List Tok)) : Prop := [] ∉ rounds

/-- A round of the loop over arguments has begun at the end of the text. -/
abbrev SomeAtEnd (rounds : List (List Tok)) : Prop := [] ∈ rounds

section Arguments

variable {TypeName : M (Option Type_t)}

/-- What is used of the reading of a type at fewer tokens. -/
def ReadsTypes (n : Nat) (TypeName : M (Option Type_t)) : Prop :=
  ∀ ts, Coded ts → ts.length + 3 ≤ n → Reads NoneAtEnd SomeAtEnd TypeName ts fun type left =>
    Behind (type.isSome = true) ts left

/-- At the end of the text there is no type. -/
def NoTypeAtEnd (TypeName : M (Option Type_t)) : Prop :=
  Reads SomeAtEnd SomeAtEnd TypeName [] fun type left => type = none ∧ left = []

/-- An argument that begins in front of the end of the text uses up a token. -/
theorem reads_argument (types : ReadsTypes n TypeName) (coded : Coded ts) (enough : ts.length + 3 ≤ n)
    (more : ts ≠ []) (begins : ¬ (code ts 0 = chr ')' ∨ code ts 0 = chr ',' ∨ code ts 0 = SN_ELLIPSIS)) :
    Reads NoneAtEnd SomeAtEnd (argument n TypeName) ts fun _ left => Behind True ts left := by
  unfold argument
  apply reads_bind
  refine (types ts coded enough).imp ?_
  intro type left first
  cases type with
  | some type =>
    apply reads_pure
    exact first.weaken fun _ => rfl
  | none =>
    apply reads_bind
    have := first.length_le
    refine (reads_skipArgument (by omega)).imp ?_
    rintro ⟨⟩ left' ⟨second, stop⟩
    apply reads_pure
    have behind := first.trans second False.elim
    refine ⟨behind.1, fun _ => Nat.lt_of_le_of_ne behind.length_le ?_⟩
    -- the skipping would have stopped in front of the argument
    intro same
    rw [behind.1.eq_of_length same] at stop
    have := coded.code_ne_zero more
    tauto

/-- At the end of the text an argument uses up nothing. -/
theorem reads_argument_atEnd (atEnd : NoTypeAtEnd TypeName) (enough : 0 < n) :
    Reads SomeAtEnd SomeAtEnd (argument n TypeName) [] fun _ left => left = [] := by
  unfold argument
  apply reads_bind
  refine atEnd.imp ?_
  rintro type left ⟨rfl, rfl⟩
  apply reads_bind
  refine (reads_skipArgument enough).imp ?_
  rintro ⟨⟩ left ⟨behind, -⟩
  apply reads_pure
  exact List.suffix_nil.mp behind.1

/-- The round of the loop over arguments that begins at the end of the text is repeated for ever. -/
theorem reads_round_atEnd {p : M β} (h : Reads SomeAtEnd SomeAtEnd p [] fun _ _ => False) :
    Reads NoneAtEnd SomeAtEnd (beginRound >>= fun _ => p) [] Q := by
  intro rounds _
  rw [runs_bind]
  exact (h (rounds ++ [[]]) (by simp)).mono (fun _ _ no => no.1.elim) fun _ atEnd => atEnd

theorem reads_ArgumentDeclarationList (types : ReadsTypes n TypeName) (atEnd : NoTypeAtEnd TypeName)
    (coded : Coded ts) (enough : ts.length + 3 ≤ n) :
    Reads NoneAtEnd SomeAtEnd (ArgumentDeclarationList n TypeName) ts fun _ left => Behind False ts left := by
  unfold ArgumentDeclarationList
  refine reads_loop (I := fun _ left => Behind False ts left) (μ := fun _ left => left.length) ?_
    Behind.refl (by omega)
  intro ListDeclaration left behind
  have := behind.length_le
  have coded := coded.behind behind
  by_cases more : left = []
  · subst more
    apply reads_round_atEnd
    apply reads_save
    apply reads_token
    rw [code_nil, if_neg (by decide), if_neg (by decide), if_neg (by decide)]
    apply reads_bind
    refine (reads_argument_atEnd atEnd (by omega)).imp ?_
    rintro type left rfl
    apply reads_save
    rw [if_pos rfl]
    exact reads_endless fun _ recorded => recorded
  · have used := behind_drop (coded.code_ne_zero more) Nat.one_pos
    apply reads_beginRound
    · intro rounds recorded among
      cases List.mem_append.mp among with
      | inl among => exact recorded among
      | inr among => exact more (List.mem_singleton.mp among).symm
    apply reads_save
    apply reads_token
    by_cases ellipsis : code left 0 = SN_ELLIPSIS
    · rw [if_pos ellipsis]
      apply reads_step
      apply reads_pure
      exact behind.trans used False.elim
    · rw [if_neg ellipsis]
      by_cases comma : code left 0 = chr ','
      · rw [if_pos comma]
        apply reads_step
        apply reads_pure
        exact ⟨behind.trans used False.elim, used.2 trivial⟩
      · rw [if_neg comma]
        by_cases close : code left 0 = chr ')'
        · rw [if_pos close]
          apply reads_pure
          exact behind
        · rw [if_neg close]
          apply reads_bind
          refine (reads_argument types coded (by omega) more (by tauto)).imp ?_
          intro type left' argument
          have shorter := argument.2 trivial
          apply reads_save
          rw [if_neg fun same => Nat.lt_irrefl _ (same ▸ shorter)]
          apply reads_pure
          exact ⟨behind.trans argument False.elim, shorter⟩

/-- The list goes up to a token that begins neither an array nor a function. -/
theorem reads_FunctionOrArrayList (types : ReadsTypes n TypeName) (atEnd : NoTypeAtEnd TypeName)
    (coded : Coded ts) (enough : ts.length + 2 ≤ n) :
    Reads NoneAtEnd SomeAtEnd (FunctionOrArrayList n TypeName) ts fun _ left =>
      Behind (code ts 0 = chr '[' ∨ code ts 0 = chr '(') ts left := by
  unfold FunctionOrArrayList
  refine Reads.imp (Q := fun _ left => Behind False ts left ∧ ¬ (code left 0 = chr '[' ∨ code left 0 = chr '('))
    ?_ ?_
  · refine reads_loop (I := fun _ left => Behind False ts left) (μ := fun _ left => left.length) ?_
      Behind.refl (by omega)
    intro ListOper left behind
    have := behind.length_le
    have coded := coded.behind behind
    apply reads_token
    by_cases array : code left 0 = chr '['
    · rw [if_pos array]
      have used := behind_drop (by rw [array]; decide) Nat.two_pos
      apply reads_step
      apply reads_pure
      exact ⟨behind.trans used False.elim, used.2 trivial⟩
    · rw [if_neg array]
      by_cases function : code left 0 = chr '('
      · rw [if_pos function]
        have used := behind_drop (by rw [function]; decide) Nat.one_pos
        have shorter := used.2 trivial
        apply reads_step
        apply reads_bind
        refine (reads_ArgumentDeclarationList types atEnd (coded.behind used) (by omega)).imp ?_
        intro ListDeclaration left' arguments
        have := arguments.length_le
        apply reads_step
        apply reads_pure
        have last : Behind False left' (left'.drop 1) := ⟨List.drop_suffix 1 left', False.elim⟩
        have := last.length_le
        refine ⟨behind.trans (used.trans (arguments.trans last id) .inl) False.elim, ?_⟩
        omega
      · rw [if_neg function]
        apply reads_pure
        refine ⟨behind, ?_⟩
        tauto
  · rintro ListOper left ⟨behind, stop⟩
    refine ⟨behind.1, fun begins => Nat.lt_of_le_of_ne behind.length_le ?_⟩
    intro same
    rw [behind.1.eq_of_length same] at stop
    exact stop begins

/-! ### Declarators -/

theorem stays {ts : List Tok} : Behind (Option.isSome (none : Option α) = true) ts ts :=
  Behind.refl.weaken fun some => absurd some Bool.false_ne_true

theorem reads_parenthesized (types : ReadsTypes n TypeName) (atEnd : NoTypeAtEnd TypeName)
    {iTokenA_Save : List Tok} {declarator : M (Option (List Oper))} (coded : Coded iTokenA_Save)
    (behind : Behind True iTokenA_Save ts) (enough : iTokenA_Save.length + 2 ≤ n)
    (reads : Reads NoneAtEnd SomeAtEnd declarator ts fun ListOper left =>
      Behind (ListOper.isSome = true) ts left) :
    Reads NoneAtEnd SomeAtEnd (parenthesized n TypeName iTokenA_Save declarator) ts fun ListOper left =>
      Behind (ListOper.isSome = true) iTokenA_Save left := by
  unfold parenthesized
  apply reads_bind
  refine reads.imp ?_
  intro ListOper left inner
  have first := behind.then inner
  cases ListOper with
  | none =>
    apply reads_restore
    apply reads_pure
    exact stays
  | some ListOper =>
    apply reads_token
    by_cases close : code left 0 = chr ')'
    · rw [if_pos close]
      have used := first.then (behind_drop (by rw [close]; decide) Nat.one_pos)
      have := used.length_le
      apply reads_step
      apply reads_bind
      refine (reads_FunctionOrArrayList types atEnd (coded.behind used) (by omega)).imp ?_
      intro ListOper2 left' more
      apply reads_pure
      exact used.trans more fun _ => .inl trivial
    · rw [if_neg close]
      apply reads_restore
      apply reads_pure
      exact stays

theorem reads_AbstractDeclarator (types : ReadsTypes n TypeName) (atEnd : NoTypeAtEnd TypeName)
    {k : Nat} (coded : Coded ts) (enough : ts.length + 2 ≤ n) (more : ts.length < k) :
    Reads NoneAtEnd SomeAtEnd (AbstractDeclarator n TypeName k) ts fun ListOper left =>
      Behind (ListOper.isSome = true) ts left := by
  induction k generalizing ts with
  | zero => exact absurd more (Nat.not_lt_zero _)
  | succ k ih =>
    -- the declarator behind a first token
    have declarator {left : List Tok} (behind : Behind True ts left) :
        Reads NoneAtEnd SomeAtEnd (AbstractDeclarator n TypeName k) left fun ListOper left' =>
          Behind (ListOper.isSome = true) left left' := by
      have := behind.2 trivial
      exact ih (coded.behind behind) (by omega) (by omega)
    unfold AbstractDeclarator
    apply reads_save
    apply reads_token
    by_cases pointer : code ts 0 = chr '*' ∨ code ts 0 = chr '&' ∨ code ts 0 = SN_IDENTIFIER ∨
        code ts 0 = SN_CLCL
    · rw [if_pos pointer]
      apply reads_bind
      refine (reads_PtrOperator (by omega)).imp ?_
      intro OperPointer left first
      cases OperPointer with
      | none =>
        apply reads_pure
        exact first.weaken (by decide)
      | some OperPointer =>
        apply reads_bind
        refine (declarator (first.weaken fun _ => rfl)).imp ?_
        intro ListOper left' second
        apply reads_pure
        exact first.trans second fun _ => .inl rfl
    · rw [if_neg pointer]
      by_cases array : code ts 0 = chr '['
      · rw [if_pos array]
        apply reads_bind
        refine (reads_FunctionOrArrayList types atEnd coded enough).imp ?_
        intro ListOper left behind
        apply reads_pure
        exact behind.weaken fun _ => .inl array
      · rw [if_neg array]
        by_cases parenthesis : code ts 0 = chr '('
        · rw [if_pos parenthesis]
          have first := behind_drop (by rw [parenthesis]; decide) Nat.one_pos
          have := first.2 trivial
          apply reads_step
          apply reads_bind
          refine (reads_PtrOperator (by omega)).imp ?_
          intro OperPointer left operator
          cases OperPointer with
          | some OperPointer =>
            apply reads_restore
            apply reads_step
            exact reads_parenthesized types atEnd coded first enough (declarator first)
          | none =>
            have inner := first.then operator
            apply reads_token
            by_cases array : code left 0 = chr '['
            · rw [if_pos array]
              exact reads_parenthesized types atEnd coded inner enough (declarator inner)
            · rw [if_neg array]
              apply reads_restore
              apply reads_bind
              refine (reads_FunctionOrArrayList types atEnd coded enough).imp ?_
              intro ListOper left behind
              apply reads_pure
              exact behind.weaken fun _ => .inr parenthesis
        · rw [if_neg parenthesis]
          apply reads_pure
          exact stays

/-! ### Types -/

theorem specifier_ne_zero {t : Nat} {type : Specifiers} {next : Specifiers × Bool}
    (keyword : specifier t type = some next) : t ≠ 0 := by
  rintro rfl
  simp [specifier] at keyword

/-- Whether a token of the type has been used up is told by `bFirst`. -/
theorem reads_specifierList (types : ReadsTypes n TypeName) (atEnd : NoTypeAtEnd TypeName)
    (coded : Coded ts) (enough : ts.length + 2 ≤ n) :
    Reads NoneAtEnd SomeAtEnd (specifierList n TypeName) ts fun type left =>
      Behind (type.isSome = true) ts left := by
  unfold specifierList
  refine reads_loop (I := fun x left => Behind (x.2 = false) ts left) (μ := fun _ left => left.length) ?_
    (Behind.refl.weaken (by decide)) (by omega)
  rintro ⟨type, bFirst⟩ left behind
  dsimp only at behind ⊢
  have := behind.length_le
  have coded := coded.behind behind
  have declarator : Reads NoneAtEnd SomeAtEnd (AbstractDeclarator n TypeName n) left fun ListOper left' =>
      Behind (ListOper.isSome = true) left left' :=
    reads_AbstractDeclarator types atEnd coded (by omega) (by omega)
  apply reads_token
  cases keyword : specifier (code left 0) type with
  | some next =>
    have used := behind_drop (specifier_ne_zero keyword) Nat.one_pos
    apply reads_step
    apply reads_pure
    exact ⟨behind.trans used fun _ => .inr trivial, used.2 trivial⟩
  | none =>
    dsimp only
    by_cases identifier : code left 0 = SN_IDENTIFIER
    · rw [if_pos identifier]
      cases bFirst with
      | true =>
        rw [if_pos rfl]
        apply reads_bind
        refine (reads_CompleteClassName (by omega)).imp ?_
        intro Name left' name
        apply reads_pure
        exact ⟨behind.trans name fun _ => .inr identifier, name.2 identifier⟩
      | false =>
        rw [if_neg Bool.false_ne_true]
        apply reads_bind
        refine declarator.imp ?_
        intro ListOper left' first
        cases ListOper with
        | some ListOper =>
          apply reads_pure
          exact behind.trans first fun _ => .inl rfl
        | none =>
          have := first.length_le
          apply reads_bind
          refine (reads_CompleteClassName (by omega)).imp ?_
          intro Name left'' second
          have used : Behind True left left'' := by
            refine ⟨second.1.trans first.1, fun _ => ?_⟩
            have := second.length_le
            by_cases same : left' = left
            · exact Nat.lt_of_lt_of_eq (second.2 (same ▸ identifier)) (congrArg List.length same)
            · have := Nat.lt_of_le_of_ne first.length_le (mt first.1.eq_of_length same)
              omega
          apply reads_pure
          exact ⟨behind.trans used fun _ => .inr trivial, used.2 trivial⟩
    · rw [if_neg identifier]
      by_cases operator : code left 0 = chr '*' ∨ code left 0 = chr '&' ∨ code left 0 = SN_CLCL ∨
          code left 0 = chr '[' ∨ code left 0 = chr '('
      · rw [if_pos operator]
        cases bFirst with
        | true =>
          rw [if_pos rfl]
          apply reads_pure
          exact behind.weaken (by decide)
        | false =>
          rw [if_neg Bool.false_ne_true]
          apply reads_bind
          refine declarator.imp ?_
          intro ListOper left' first
          cases ListOper with
          | some ListOper =>
            apply reads_pure
            exact behind.trans first fun _ => .inl rfl
          | none =>
            apply reads_pure
            exact behind.trans first fun some => absurd some Bool.false_ne_true
      · rw [if_neg operator]
        cases bFirst with
        | true =>
          rw [if_pos rfl]
          apply reads_pure
          exact behind.weaken (by decide)
        | false =>
          rw [if_neg Bool.false_ne_true]
          apply reads_pure
          exact behind.weaken fun _ => rfl

theorem specifierList_atEnd (more : 0 < n) : Reads SomeAtEnd SomeAtEnd (specifierList n TypeName) []
    fun type left => type = none ∧ left = [] := by
  unfold specifierList
  refine reads_loop (I := fun x left => x.2 = true ∧ left = []) (μ := fun _ _ => 0) ?_ ⟨rfl, rfl⟩ more
  rintro ⟨type, bFirst⟩ left ⟨rfl, rfl⟩
  apply reads_token
  rw [code_nil, show specifier 0 type = none from rfl]
  rw [if_neg (by decide), if_neg (by decide), if_pos rfl]
  apply reads_pure
  exact ⟨rfl, rfl⟩

end Arguments

theorem noTypeAtEnd (more : 1 < n) : NoTypeAtEnd (TypeName n) := by
  obtain ⟨n, rfl⟩ : ∃ m, n = m + 1 := ⟨n - 1, by omega⟩
  unfold NoTypeAtEnd TypeName
  apply reads_token
  rw [code_nil, if_neg (by decide)]
  exact specifierList_atEnd (by omega)

theorem readsTypes : ReadsTypes n (TypeName n) := by
  induction n with
  | zero => exact fun ts _ enough => absurd enough (by omega)
  | succ n ih =>
    intro ts coded enough
    unfold TypeName
    apply reads_token
    by_cases parenthesis : code ts 0 = chr '('
    · rw [if_pos parenthesis]
      have first := behind_drop (by rw [parenthesis]; decide) Nat.one_pos
      have := first.2 trivial
      apply reads_step
      apply reads_bind
      refine (ih _ (coded.behind first) (by omega)).imp ?_
      intro type left second
      apply reads_step
      apply reads_pure
      have last : Behind False left (left.drop 1) := ⟨List.drop_suffix 1 left, False.elim⟩
      exact ((first.then second).then last).weaken fun _ => trivial
    · rw [if_neg parenthesis]
      exact reads_specifierList ih (noTypeAtEnd (by omega)) coded (by omega)

/-! ### The whole text -/

theorem lex_coded (pc : Text) : Coded (lex pc) := fun t among => (lex_tokens pc t among).code_ne_zero

/-- The tokens in front of which a round of the loop over arguments begins while `type` is read. -/
def roundsOf (type : Text) : List (List Tok) :=
  match f_TypeFromString type with
  | .done _ s => s.rounds
  | .endless s => s.rounds
  | .unfinished => []

end SourceNavigator.Cpp.Types
