import SourceNavigator.LongStr.Copies
import SourceNavigator.LongStr.Split

/-!
Splitting and joining (`LongStringSplit` in `misc/libutils/longstr.c`).

A split is right if its fields, joined with the separator, are the text, if their sizes are their
lengths, and if only the last field has separators, where the maximum is reached. There is only
one such split, so right splits in different modes agree.

* `group_of_separated` says that the fields of a right split are the groups of its pieces.
* `split_right_iff` says in which cases a split is right.
-/

namespace SourceNavigator.LongStr

open Db (int16)

/-! ### Right splits -/

/-- Fields, the first of which is the `n`th, of which only the last may have separators, where the
maximum is reached. -/
structure Separated (sep : UInt8) (max n : Int) (fields : List Text) : Prop where
  some_field : fields ≠ []
  count : 0 < max → n - 1 + fields.length ≤ max
  front : ∀ t ∈ fields.dropLast, sep ∉ t
  last : ∀ t, fields.getLast? = some t → sep ∈ t → 0 < max ∧ n - 1 + fields.length = max

/-- A right split of a text. -/
structure IsSplit (sep : UInt8) (max : Int) (text : Text) (list : List (Text × Int)) : Prop where
  separated : Separated sep max 1 (list.map Prod.fst)
  join : [sep].intercalate (list.map Prod.fst) = text
  sizes : ∀ field ∈ list, field.2 = field.1.length

theorem IsSplit.map_snd {sep : UInt8} {max : Int} {text : Text} {list : List (Text × Int)}
    (split : IsSplit sep max text list) :
    list.map Prod.snd = (list.map Prod.fst).map fun t => (t.length : Int) := by
  rw [List.map_map]
  exact List.map_congr_left split.sizes

section Separated

variable {sep : UInt8} {max n : Int} {fields qs : List Text} {text : Text}

/-- The fields of a right split are determined by the text. -/
theorem group_of_separated (before : 0 < max → n < max) (separated : Separated sep max n fields) :
    group sep max n (([sep].intercalate fields).splitOn sep) = fields := by
  induction fields generalizing n with
  | nil => exact absurd rfl separated.some_field
  | cons t fields ih =>
    cases fields with
    | nil =>
      have alone : [sep].intercalate [t] = t := by simp
      have separate : sep ∉ t := by
        intro mem
        obtain ⟨positive, same⟩ := separated.last t rfl mem
        have less := before positive
        rw [List.length_singleton] at same
        omega
      rw [alone, List.splitOn_eq_singleton separate, group]
      simp
    | cons u fields =>
      have count := separated.count
      have separate : sep ∉ t := separated.front t List.mem_cons_self
      rw [List.length_cons, List.length_cons] at count
      rw [intercalate_cons (List.cons_ne_nil u fields), List.splitOn_append_cons_self,
        List.splitOn_eq_singleton separate, List.singleton_append]
      have some_piece := List.splitOn_ne_nil sep ([sep].intercalate (u :: fields))
      have joined : [sep].intercalate (([sep].intercalate (u :: fields)).splitOn sep) = _ :=
        List.intercalate_splitOn sep
      obtain ⟨p, ps, parts⟩ := List.exists_cons_of_ne_nil some_piece
      rw [parts] at joined ⊢
      rw [group]
      split
      case isTrue reached =>
        have fields_nil : fields = [] := by
          rw [← List.length_eq_zero_iff]
          have le := count reached.1
          omega
        rw [joined, fields_nil]
        simp
      case isFalse more =>
        have rest : Separated sep max (n + 1) (u :: fields) := by
          constructor
          case some_field => exact List.cons_ne_nil u fields
          case count =>
            intro positive
            have le := count positive
            rw [List.length_cons]
            omega
          case front => exact fun v mem => separated.front v (List.mem_cons_of_mem t mem)
          case last =>
            intro v here mem
            obtain ⟨positive, same⟩ := separated.last v here mem
            rw [List.length_cons] at same
            exact ⟨positive, by omega⟩
        have next := ih (n := n + 1) (by omega) rest
        rw [parts] at next
        rw [next]

theorem intercalate_group : [sep].intercalate (group sep max n qs) = [sep].intercalate qs := by
  induction qs generalizing n with
  | nil => rw [group]; simp
  | cons q qs ih =>
    cases qs with
    | nil => rw [group]; simp
    | cons r qs =>
      have some_piece : r :: qs ≠ [] := List.cons_ne_nil r qs
      rw [group]
      split
      case isTrue =>
        rw [intercalate_cons some_piece, intercalate_cons (List.cons_ne_nil _ _)]
        simp
      case isFalse => rw [intercalate_cons some_piece, intercalate_cons (group_ne_nil some_piece), ih]

/-- Pieces without separators make the fields of a right split. -/
theorem group_separated (before : 0 < max → n < max) (some_piece : qs ≠ [])
    (separate : ∀ q ∈ qs, sep ∉ q) : Separated sep max n (group sep max n qs) := by
  induction qs generalizing n with
  | nil => exact absurd rfl some_piece
  | cons q qs ih =>
    have first := separate q List.mem_cons_self
    cases qs with
    | nil =>
      rw [group]
      · constructor
        case some_field => exact List.cons_ne_nil q []
        case count =>
          intro positive
          have less := before positive
          rw [List.length_singleton]
          omega
        case front => exact fun t mem => absurd mem List.not_mem_nil
        case last =>
          intro t here mem
          obtain rfl : q = t := Option.some.inj here
          exact absurd mem first
      · simp
    | cons r qs =>
      rw [group]
      split
      case isTrue reached =>
        constructor
        case some_field => exact List.cons_ne_nil _ _
        case count =>
          intro _
          rw [List.length_cons, List.length_singleton]
          omega
        case front =>
          intro t mem
          obtain rfl : t = q := List.mem_singleton.mp mem
          exact first
        case last =>
          intro t _ _
          rw [List.length_cons, List.length_singleton]
          exact ⟨reached.1, by omega⟩
      case isFalse more =>
        have some_rest : group sep max (n + 1) (r :: qs) ≠ [] :=
          group_ne_nil (List.cons_ne_nil r qs)
        have rest : Separated sep max (n + 1) (group sep max (n + 1) (r :: qs)) :=
          ih (by omega) (List.cons_ne_nil r qs)
            fun t mem => separate t (List.mem_cons_of_mem q mem)
        obtain ⟨u, us, parts⟩ := List.exists_cons_of_ne_nil some_rest
        rw [parts] at rest ⊢
        have count := rest.count
        rw [List.length_cons] at count
        constructor
        case some_field => exact List.cons_ne_nil _ _
        case count =>
          intro positive
          have le := count positive
          rw [List.length_cons, List.length_cons]
          omega
        case front =>
          intro t mem
          rcases List.mem_cons.mp mem with rfl | mem
          · exact first
          · exact rest.front t mem
        case last =>
          intro t here mem
          obtain ⟨positive, same⟩ := rest.last t here mem
          rw [List.length_cons] at same ⊢
          rw [List.length_cons]
          exact ⟨positive, by omega⟩

/-- The maximum is reached if there are enough pieces. -/
theorem reached_iff (some_field : 1 ≤ n) :
    reached max n qs = true ↔ n < max ∧ max ≤ n - 1 + qs.length := by
  induction qs generalizing n with
  | nil =>
    refine iff_of_false (by simp [reached]) ?_
    rw [List.length_nil]
    omega
  | cons q qs ih =>
    cases qs with
    | nil =>
      refine iff_of_false (by simp [reached]) ?_
      rw [List.length_singleton]
      omega
    | cons r qs =>
      rw [reached, Bool.or_eq_true, decide_eq_true_iff, ih (by omega)]
      simp only [List.length_cons]
      omega

/-- Short fields make a text whose length is an `int`. -/
theorem length_intercalate_le (sep : UInt8) (some_field : fields ≠ []) (short : ∀ t ∈ fields, t.length < 32768) :
    ([sep].intercalate fields).length + 1 ≤ 32768 * fields.length := by
  induction fields with
  | nil => exact absurd rfl some_field
  | cons t fields ih =>
    have first := short t List.mem_cons_self
    cases fields with
    | nil =>
      rw [List.length_singleton]
      simp
      omega
    | cons u fields =>
      have rest := ih (List.cons_ne_nil u fields)
        fun v mem => short v (List.mem_cons_of_mem t mem)
      rw [intercalate_cons (List.cons_ne_nil u fields), List.length_append, List.length_cons,
        List.length_cons (a := t)]
      omega

/-- One field is the whole text. -/
theorem Separated.eq_singleton (separated : Separated sep 1 1 fields) :
    fields = [[sep].intercalate fields] := by
  have le := separated.count (by decide)
  obtain ⟨t, ts, rfl⟩ := List.exists_cons_of_ne_nil separated.some_field
  rw [List.length_cons] at le
  have none_left : ts = [] := by
    rw [← List.length_eq_zero_iff]
    omega
  rw [none_left]
  simp

theorem map_fst_unique {fields' : List Text} (separated : Separated sep max 1 fields)
    (separated' : Separated sep max 1 fields')
    (same : [sep].intercalate fields = [sep].intercalate fields') : fields = fields' := by
  by_cases one : max = 1
  · rw [one] at separated separated'
    rw [separated.eq_singleton, separated'.eq_singleton, same]
  · have before : 0 < max → 1 < max := by omega
    rw [← group_of_separated before separated, ← group_of_separated before separated', same]

/-- There is only one right split of a text. -/
theorem IsSplit.unique {list list' : List (Text × Int)} (right : IsSplit sep max text list)
    (right' : IsSplit sep max text list') : list = list' := by
  have fields : list.map Prod.fst = list'.map Prod.fst :=
    map_fst_unique right.separated right'.separated (right.join.trans right'.join.symm)
  have sized : ∀ l : List (Text × Int), (∀ field ∈ l, field.2 = field.1.length) →
      l = (l.map Prod.fst).map fun t => (t, (t.length : Int)) := by
    intro l sizes
    rw [List.map_map]
    conv_lhs => rw [← List.map_id l]
    refine List.map_congr_left fun field mem => ?_
    exact Prod.ext rfl (sizes field mem)
  rw [sized list right.sizes, sized list' right'.sizes, fields]

end Separated

/-! ### The fields of a split -/

section Fields

variable {x : UInt8} {g : List Text}
  {text t : Text}

theorem int16_eq_iff {n : Nat} : int16 n = n ↔ n < 32768 := by
  constructor
  · intro same
    have bound := Int.bmod_lt (x := (n : Int)) (m := 65536) (by decide)
    rw [int16] at same
    omega
  · exact Db.int16_of_lt

/-- The sizes are the lengths exactly if these fit a `short` and the last one is not too large. -/
theorem sizes_eq_iff {more : Int} (some_field : g ≠ []) (one : more = 0 ∨ more = 1) :
    sizes more g = g.map (fun t => (t.length : Int)) ↔ (∀ t ∈ g, t.length < 32768) ∧ more = 0 := by
  induction g with
  | nil => exact absurd rfl some_field
  | cons t g ih =>
    cases g with
    | nil =>
      have short := int16_eq_iff (n := t.length)
      rw [sizes, List.map_singleton, List.singleton_inj, List.forall_mem_singleton]
      rcases one with rfl | rfl
      · rw [Int.add_zero, short]
        exact (and_iff_left rfl).symm
      · refine iff_of_false ?_ (by omega)
        intro same
        rw [int16, Int.bmod_def] at same
        split at same <;> omega
    | cons u g =>
      rw [sizes_cons (List.cons_ne_nil u g), List.map_cons, List.cons_eq_cons,
        ih (List.cons_ne_nil u g), int16_eq_iff, List.forall_mem_cons (a := t), and_assoc]

theorem take_cString (nul : 0 ∉ t) : (cString (t ++ text)).take t.length = t := by
  induction t with
  | nil => rfl
  | cons c t ih =>
    rw [List.mem_cons, not_or] at nul
    rw [List.cons_append, cString_cons (Ne.symm nul.1), List.length_cons, List.take_succ_cons,
      ih nul.2]

/-- The fields that stand in the memory. -/
theorem fieldText_starts (pre : Text) (nul : ∀ t ∈ g, 0 ∉ t) :
    ((starts pre.length g).zip (g.map fun t => (t.length : Int))).map
        (fun field => (fieldText (pre ++ [x].intercalate g) field.1 field.2, field.2)) =
      g.map fun t => (t, (t.length : Int)) := by
  induction g generalizing pre with
  | nil => rfl
  | cons t g ih =>
    have first : 0 ∉ t := nul t List.mem_cons_self
    rw [starts, List.map_cons, List.zip_cons_cons, List.map_cons, List.map_cons]
    refine congrArg₂ List.cons ?_ ?_
    · obtain ⟨tail, parts⟩ : ∃ tail, [x].intercalate (t :: g) = t ++ tail := by
        cases g with
        | nil => exact ⟨[], by simp⟩
        | cons u g => exact ⟨_, intercalate_cons (List.cons_ne_nil u g)⟩
      refine congrArg (fun s => (s, (t.length : Int))) ?_
      rw [fieldText, parts, List.drop_left, if_neg (by omega), Int.toNat_natCast]
      exact take_cString first
    · cases g with
      | nil => rfl
      | cons u g =>
        have rest := ih (pre ++ (t ++ [x])) fun v mem => nul v (List.mem_cons_of_mem t mem)
        have size : (pre ++ (t ++ [x])).length = pre.length + t.length + 1 := by simp [Nat.add_assoc]
        rw [size, List.append_assoc, List.append_assoc, List.singleton_append,
          ← intercalate_cons (List.cons_ne_nil u g)] at rest
        exact rest

theorem length_starts {p : Nat} : (starts p g).length = g.length := by
  induction g generalizing p with
  | nil => rfl
  | cons t g ih => rw [starts, List.length_cons, List.length_cons, ih]

theorem length_sizes {more : Int} : (sizes more g).length = g.length := by
  induction g with
  | nil => rfl
  | cons t g ih =>
    cases g with
    | nil => rfl
    | cons u g => rw [sizes_cons (List.cons_ne_nil u g), List.length_cons, List.length_cons, ih]

theorem lt_of_mem_sizes {more n : Int} (mem : n ∈ sizes more g) : n < 32768 := by
  have small : ∀ m : Int, int16 m < 32768 := by
    intro m
    have bound := Int.bmod_lt (x := m) (m := 65536) (by decide)
    rw [int16]
    omega
  induction g with
  | nil => cases mem
  | cons t g ih =>
    cases g with
    | nil =>
      rw [List.mem_singleton.mp mem]
      exact small _
    | cons u g =>
      rw [sizes_cons (List.cons_ne_nil u g)] at mem
      rcases List.mem_cons.mp mem with same | mem
      · rw [same]
        exact small _
      · exact ih mem

/-- The fields of a split that has the arrays for them. -/
theorem list_mk (memory : Text) (more : Int) (small : g.length ≤ 65535) :
    Split.list ⟨UInt16.ofNat g.length, memory, starts 0 g, sizes more g⟩ =
      ((starts 0 g).zip (sizes more g)).map
        fun field => (fieldText memory field.1 field.2, field.2) := by
  have bound : g.length < 65536 := by omega
  have count : (UInt16.ofNat g.length).toNat = g.length := UInt16.toNat_ofNat_of_lt' bound
  have whole : ((starts 0 g).zip (sizes more g)).length ≤ g.length := by
    rw [List.length_zip, length_starts, length_sizes, Nat.min_self]
  rw [Split.list]
  dsimp only
  rw [count, List.take_of_length_le whole]

theorem map_snd_list {memory : Text} {more : Int} (small : g.length ≤ 65535) :
    (Split.list ⟨UInt16.ofNat g.length, memory, starts 0 g, sizes more g⟩).map Prod.snd =
      sizes more g := by
  rw [list_mk memory more small, List.map_map]
  change ((starts 0 g).zip (sizes more g)).map Prod.snd = _
  exact List.map_snd_zip (by rw [length_starts, length_sizes])

end Fields

/-! ### Splits of a text -/

/-- A split of a text is right, and the number of its fields is returned. -/
def Right (sep : UInt8) (max : Int) (text : Text) (result : Option Split) : Prop :=
  ∃ s, result = some s ∧ s.total_fields.toNat = s.list.length ∧ IsSplit sep max text s.list

/-- The arrays have room for the fields of the text, whose lengths fit a `short`, and a maximum of
one field is not exceeded. -/
def FieldsFit (arrays : Option FieldArrays) (sep : UInt8) (max : Int) (text : Text) : Prop :=
  let fields := group sep max 1 (text.splitOn sep)
  fields.length ≤ (arrays.getD ⟨15, 15⟩).limit ∧ (∀ t ∈ fields, t.length < 32768) ∧
    (max = 1 → sep ∉ text)

instance (arrays : Option FieldArrays) (sep : UInt8) (max : Int) (text : Text) :
    Decidable (FieldsFit arrays sep max text) :=
  inferInstanceAs (Decidable (_ ≤ _ ∧ (∀ t ∈ group sep max 1 (text.splitOn sep), t.length < 32768) ∧
    (max = 1 → sep ∉ text)))

section Text

variable {arrays : Option FieldArrays} {sep : UInt8} {max : Int} {dup_flag : Bool}
  {len length : Int} {text t : Text}

theorem join_group : [sep].intercalate (group sep max 1 (text.splitOn sep)) = text := by
  rw [intercalate_group]
  exact List.intercalate_splitOn sep

theorem group_splitOn_ne_nil : group sep max 1 (text.splitOn sep) ≠ [] :=
  group_ne_nil (List.splitOn_ne_nil sep text)

/-- A text whose fields fit has a length that is an `int`. -/
theorem FieldsFit.small (fits : FieldsFit arrays sep max text) : text.length < 2147483648 := by
  have le := length_intercalate_le sep group_splitOn_ne_nil fits.2.1
  rw [join_group] at le
  have count := fits.1
  have limit := (arrays.getD ⟨15, 15⟩).limit_le
  omega

theorem splitText_eq_some {s : Split} (nul : 0 ∉ t)
    (given : dup_flag = false → 0 < length → length = t.length)
    (run : splitText sep max dup_flag arrays len length t = some s) :
    let fields := group sep max 1 (t.splitOn sep)
    fields.length ≤ (arrays.getD ⟨15, 15⟩).limit ∧ fields.length ≤ 65535 ∧
      s = ⟨UInt16.ofNat fields.length, [mark sep dup_flag].intercalate fields, starts 0 fields,
        sizes (excess dup_flag (reached max 1 (t.splitOn sep)) len t.length) fields⟩ := by
  have closed := splitText_eq sep max len arrays nul given
  have limit := (arrays.getD ⟨15, 15⟩).limit_le
  rw [run] at closed
  dsimp only at closed ⊢
  split at closed
  case isTrue fits => exact ⟨fits, Nat.le_trans fits limit, Option.some.inj closed⟩
  case isFalse => cases closed

/-- So has a text of which some split is right. -/
theorem Right.small (nul : 0 ∉ t)
    (given : dup_flag = false → 0 < length → length = t.length)
    (right : Right sep max text (splitText sep max dup_flag arrays len length t)) :
    text.length < 2147483648 := by
  obtain ⟨s, run, total, split⟩ := right
  have closed := splitText_eq sep max len arrays nul given
  rw [run] at closed
  have some_field : s.list.map Prod.fst ≠ [] := split.separated.some_field
  have short : ∀ u ∈ s.list.map Prod.fst, u.length < 32768 := by
    intro u mem
    obtain ⟨field, mem', rfl⟩ := List.mem_map.mp mem
    have size := split.sizes field mem'
    obtain ⟨_, few, rfl⟩ := splitText_eq_some nul given run
    have listed : field.2 ∈ sizes _ _ := map_snd_list few ▸ List.mem_map_of_mem mem'
    have le := lt_of_mem_sizes listed
    omega
  have le := length_intercalate_le sep some_field short
  rw [split.join, List.length_map, ← total] at le
  have count := s.total_fields.toNat_lt
  omega

theorem group_one {qs : List Text} {n : Int} (some_field : 1 ≤ n) : group sep 1 n qs = qs := by
  induction qs generalizing n with
  | nil => rw [group]; simp
  | cons q qs ih =>
    cases qs with
    | nil => rw [group]; simp
    | cons r qs => rw [group, if_neg (by omega), ih (by omega)]

theorem separated_group (one : max = 1 → sep ∉ text) :
    Separated sep max 1 (group sep max 1 (text.splitOn sep)) := by
  by_cases same : max = 1
  · have alone := List.splitOn_eq_singleton (one same)
    rw [same, group_one (Int.le_refl 1), alone]
    constructor
    case some_field => exact List.cons_ne_nil text []
    case count => exact fun _ => Int.le_refl 1
    case front => exact fun t mem => absurd mem List.not_mem_nil
    case last =>
      intro t here mem
      obtain rfl : text = t := Option.some.inj here
      exact absurd mem (one same)
  · exact group_separated (by omega) (List.splitOn_ne_nil sep text)
      fun q mem => Db.sep_notMem_of_mem_splitOn mem

/-- A byte of a field is a byte of the text. -/
theorem mem_of_mem_field (sep : UInt8) {c : UInt8} {g : List Text} (mem : t ∈ g) (inside : c ∈ t) :
    c ∈ [sep].intercalate g := by
  induction g with
  | nil => cases mem
  | cons u g ih =>
    cases g with
    | nil =>
      rw [List.mem_singleton] at mem
      simpa [mem] using inside
    | cons v g =>
      rw [intercalate_cons (List.cons_ne_nil v g), List.mem_append, List.mem_cons]
      rcases List.mem_cons.mp mem with rfl | mem
      · exact .inl inside
      · exact .inr (.inr (ih mem))

theorem excess_cases (dup_flag r : Bool) {len total : Int} (copied : dup_flag = true → len = total) :
    excess dup_flag r len total = 0 ∧ (dup_flag = true ∨ r = false) ∨
      excess dup_flag r len total = 1 ∧ dup_flag = false ∧ r = true := by
  cases r with
  | false => exact .inl ⟨rfl, .inr rfl⟩
  | true =>
    cases dup_flag with
    | true =>
      refine .inl ⟨?_, .inl rfl⟩
      rw [excess, if_pos rfl, if_pos rfl, copied rfl, Int.sub_self]
    | false => exact .inr ⟨rfl, rfl, rfl⟩

/-- The split of a text is right exactly if its fields fit, where the maximum is not reached in a
text that is not copied. -/
theorem right_splitText_iff (nul : 0 ∉ text)
    (given : dup_flag = false → 0 < length → length = text.length)
    (copied : dup_flag = true → len = text.length) :
    Right sep max text (splitText sep max dup_flag arrays len length text) ↔
      FieldsFit arrays sep max text ∧
        (dup_flag = true ∨ ¬ (1 < max ∧ max ≤ (text.splitOn sep).length)) := by
  have some_field : group sep max 1 (text.splitOn sep) ≠ [] := group_splitOn_ne_nil
  have stops : reached max 1 (text.splitOn sep) = true ↔ _ := reached_iff (Int.le_refl 1)
  rw [Int.sub_self, Int.zero_add] at stops
  have more := excess_cases dup_flag (reached max 1 (text.splitOn sep)) copied
  rw [← stops, Bool.not_eq_true]
  constructor
  · rintro ⟨s, run, _, split⟩
    obtain ⟨room, few, rfl⟩ := splitText_eq_some nul given run
    have counts := split.map_snd
    rw [map_snd_list few] at counts
    have one : max = 1 → sep ∉ text := by
      rintro rfl
      have alone := split.separated.eq_singleton
      rw [split.join] at alone
      rw [alone] at counts
      have single := congrArg List.length counts
      rw [length_sizes, group_one (Int.le_refl 1), List.map_singleton, List.length_singleton] at single
      obtain ⟨p, piece⟩ := List.length_eq_one_iff.mp single
      have joined : [sep].intercalate (text.splitOn sep) = text := List.intercalate_splitOn sep
      have separate : sep ∉ p := Db.sep_notMem_of_mem_splitOn (piece ▸ List.mem_singleton_self p)
      rw [piece] at joined
      have same : p = text := by simpa using joined
      rwa [← same]
    have fields := map_fst_unique split.separated (separated_group one)
      (split.join.trans join_group.symm)
    rw [fields, sizes_eq_iff some_field (by omega)] at counts
    refine ⟨⟨room, counts.1, one⟩, ?_⟩
    rcases more with ⟨_, exact_end⟩ | ⟨not_zero, _⟩
    · exact exact_end
    · have zero := counts.2
      omega
  · rintro ⟨⟨room, short, one⟩, exact_end⟩
    have zero : excess dup_flag (reached max 1 (text.splitOn sep)) len text.length = 0 := by
      rcases more with ⟨zero, _⟩ | ⟨_, no_dup, stop⟩
      · exact zero
      · rw [no_dup, stop] at exact_end
        simp at exact_end
    have closed := splitText_eq sep max len arrays nul given
    dsimp only at closed
    rw [if_pos room, zero] at closed
    have few := Nat.le_trans room (FieldArrays.limit_le _)
    have no_nul : ∀ t ∈ group sep max 1 (text.splitOn sep), 0 ∉ t := by
      intro t mem zero
      have inside := mem_of_mem_field sep mem zero
      rw [join_group] at inside
      exact nul inside
    have listed := list_mk ([mark sep dup_flag].intercalate (group sep max 1 (text.splitOn sep))) 0 few
    rw [(sizes_eq_iff some_field (.inl rfl)).mpr ⟨short, rfl⟩] at listed closed
    have texts := listed.trans (fieldText_starts [] no_nul)
    have firsts : (group sep max 1 (text.splitOn sep)).map (Prod.fst ∘ fun t => (t, (t.length : Int))) =
        group sep max 1 (text.splitOn sep) := List.map_id _
    refine ⟨_, closed, ?_, ?_⟩
    · rw [texts, List.length_map]
      exact UInt16.toNat_ofNat_of_lt' (Nat.lt_succ_of_le few)
    · rw [texts]
      constructor
      case separated =>
        rw [List.map_map, firsts]
        exact separated_group one
      case join =>
        rw [List.map_map, firsts]
        exact join_group
      case sizes =>
        intro field mem
        obtain ⟨t, _, rfl⟩ := List.mem_map.mp mem
        rfl

theorem cString_append (nul : 0 ∉ text) : cString (text ++ 0 :: t) = text := by
  induction text with
  | nil => rfl
  | cons c text ih =>
    rw [List.mem_cons, not_or] at nul
    rw [List.cons_append, cString_cons (Ne.symm nul.1), ih nul.2]

/-- The text in a buffer. -/
theorem string_of_inv {st : LongString} {b : Buffer} (inv : Inv st text) (buf : st.buf = some b)
    (nul : 0 ∉ text) : b.string = some text := by
  obtain ⟨holds, fits, capacity⟩ := inv.1.used b buf
  have front : (List.range text.length).map b.bytes = text := by
    refine List.ext_getElem (by simp) fun i _ lt => ?_
    have read := holds i lt
    rw [List.getElem?_eq_getElem lt] at read
    simpa using (Option.some.inj read).symm
  obtain ⟨k, size⟩ := Nat.exists_eq_add_of_lt (Nat.lt_of_lt_of_le fits capacity)
  obtain ⟨tail, bytes⟩ : ∃ tail, (List.range b.capacity).map b.bytes = text ++ 0 :: tail := by
    rw [size, Nat.add_assoc, List.range_add, List.map_append, front, List.range_succ_eq_map,
      List.map_cons, List.map_cons, Nat.add_zero, inv.2 b buf]
    exact ⟨_, rfl⟩
  have mem : 0 ∈ text ++ 0 :: tail := List.mem_append_right text List.mem_cons_self
  rw [Buffer.string, bytes, List.contains_iff_mem.mpr mem, if_pos rfl, cString_append nul]

theorem nul_of_string {b : Buffer} (string : b.string = some t) : 0 ∉ t := by
  rw [Buffer.string] at string
  split at string
  case isTrue =>
    rw [← Option.some.inj string]
    intro mem
    exact absurd (List.mem_takeWhile_imp mem) (by decide)
  case isFalse => cases string

end Text

/-! ### Calls -/

/-- The ways to split a text: where it stands, or copied into the string, both with its length or
with `-1`; and in the buffer of the string itself, where the length does not matter. -/
inductive Call
  | shared (explicit : Bool)
  | copied (explicit : Bool)
  | own (length : Int)

/-- The length that is given for a text. -/
def givenLength (explicit : Bool) (text : Text) : Int := if explicit then text.length else -1

def Call.run (garbage : Nat → UInt8) (st : LongString) (arrays : Option FieldArrays) (text : Text)
    (separator maxfields : Int) : Call → Option Split
  | shared explicit =>
    LongStringSplit garbage st arrays (some text) (givenLength explicit text) false separator
      maxfields
  | copied explicit =>
    LongStringSplit garbage st arrays (some text) (givenLength explicit text) true separator
      maxfields
  | own length => LongStringSplit garbage st arrays none length true separator maxfields

/-- The call is one for the text: a length that is given is an `int`, a string that is copied into
counts its buffer right, and the own buffer has the text. -/
def Call.Valid (st : LongString) (text : Text) : Call → Prop
  | shared explicit => explicit = true → text.length < 2147483648
  | copied explicit => (∃ t, Counted st t) ∧ (explicit = true → text.length < 2147483648)
  | own _ => Inv st text ∧ st.buf.isSome

/-- What an empty copy leaves in the buffer has no separator, and no size. -/
def EmptyFits (st : LongString) (sep : UInt8) : Prop :=
  ∃ t, st.buf.bind Buffer.string = some t ∧ sep ∉ t ∧ t.length % 65536 = 0

/-- The condition of a call. -/
def Call.Fits (st : LongString) (text : Text) (sep : UInt8) (max : Int) : Call → Prop
  | shared _ => ¬ (1 < max ∧ max ≤ (text.splitOn sep).length)
  | copied false => CopyFits st text
  | copied true =>
    if text = [] then EmptyFits st sep else BlockFits { st with len := 0 } text text.length
  | own _ => True

section Calls

variable {garbage : Nat → UInt8} {st : LongString} {arrays : Option FieldArrays} {text t : Text}
  {separator max : Int}

/-- A copy that succeeds is split as the text. -/
theorem right_of_keeps {length : Int} (nul : 0 ∉ text) (some_len : length ≠ 0)
    (keeps : Keeps (LongStringCopy garbage st text length) text) :
    Right (UInt8.ofInt separator) max text
        (LongStringSplit garbage st arrays (some text) length true separator max) ↔
      FieldsFit arrays (UInt8.ofInt separator) max text := by
  obtain ⟨st', run, inv⟩ := keeps
  obtain ⟨b, buf⟩ := Option.isSome_iff_exists.mp (isSome_of_copy some_len run)
  have string := string_of_inv inv buf nul
  rw [LongStringSplit, run, Option.bind_some, buf, Option.bind_some, string, Option.bind_some,
    right_splitText_iff nul (fun no_dup => Bool.noConfusion no_dup) (fun _ => inv.1.len)]
  exact and_iff_left (.inl rfl)

theorem small_of_copied {length : Int}
    (right : Right (UInt8.ofInt separator) max text
      (LongStringSplit garbage st arrays (some text) length true separator max)) :
    text.length < 2147483648 := by
  have whole := right
  obtain ⟨s, run, _, _⟩ := right
  rw [LongStringSplit] at run whole
  obtain ⟨st', copied, rest⟩ := Option.bind_eq_some_iff.mp run
  obtain ⟨t, string, _⟩ := Option.bind_eq_some_iff.mp rest
  obtain ⟨b, _, string'⟩ := Option.bind_eq_some_iff.mp string
  rw [copied, Option.bind_some, string, Option.bind_some] at whole
  exact whole.small (nul_of_string string') fun no_dup => Bool.noConfusion no_dup

theorem group_alone {sep : UInt8} (separate : sep ∉ t) : group sep max 1 (t.splitOn sep) = [t] := by
  rw [List.splitOn_eq_singleton separate, group]
  simp

theorem fieldsFit_nil_iff {sep : UInt8} :
    FieldsFit arrays sep max [] ↔ 1 ≤ (arrays.getD ⟨15, 15⟩).limit := by
  have piece : group sep max 1 ([].splitOn sep) = [[]] := group_alone List.not_mem_nil
  rw [FieldsFit, piece]
  simp

/-- A copy of nothing splits what the buffer had. -/
theorem right_empty_iff {sep : UInt8} {length : Int} (nul : 0 ∉ t) :
    Right sep max [] (splitText sep max true arrays 0 length t) ↔
      1 ≤ (arrays.getD ⟨15, 15⟩).limit ∧ sep ∉ t ∧ t.length % 65536 = 0 := by
  have none_given : true = false → 0 < length → length = t.length := fun no_dup => Bool.noConfusion no_dup
  have size : sep ∉ t → sizes (excess true (reached max 1 (t.splitOn sep)) 0 t.length) [t] =
      [int16 t.length] := by
    intro separate
    rw [List.splitOn_eq_singleton separate, reached, sizes]
    · simp [excess]
    · simp
  have multiple_iff : int16 t.length = 0 ↔ t.length % 65536 = 0 := by
    rw [int16, Int.bmod_def]
    split <;> omega
  constructor
  · rintro ⟨s, run, _, split⟩
    obtain ⟨room, few, rfl⟩ := splitText_eq_some nul none_given run
    have counts := split.map_snd
    have fields := map_fst_unique split.separated (separated_group fun _ => List.not_mem_nil)
      (split.join.trans join_group.symm)
    rw [group_alone List.not_mem_nil] at fields
    rw [map_snd_list few, fields] at counts
    have alone := congrArg List.length counts
    rw [length_sizes, List.map_singleton, List.length_singleton] at alone
    have separate : sep ∉ t := by
      intro mem
      obtain ⟨raw, rest, rfl, first⟩ := List.eq_append_cons_of_mem mem
      obtain ⟨p, ps, parts⟩ := List.exists_cons_of_ne_nil (List.splitOn_ne_nil sep rest)
      rw [List.splitOn_append_cons_self, List.splitOn_eq_singleton first, List.singleton_append,
        parts] at alone
      have more := two_le_group sep max 1 raw p ps
      omega
    rw [group_alone separate, size separate] at counts
    rw [group_alone separate] at room
    exact ⟨room, separate, multiple_iff.mp (List.singleton_inj.mp counts)⟩
  · rintro ⟨room, separate, multiple⟩
    have closed := splitText_eq sep max 0 arrays nul none_given
    dsimp only at closed
    rw [group_alone separate, if_pos (by exact room), size separate, multiple_iff.mpr multiple] at closed
    refine ⟨_, closed, rfl, ?_⟩
    have listed : Split.list ⟨UInt16.ofNat [t].length, [mark sep true].intercalate [t], starts 0 [t], [0]⟩ =
        [([], 0)] := rfl
    rw [listed]
    constructor
    case separated =>
      have whole : Separated sep max 1 (group sep max 1 ([].splitOn sep)) :=
        separated_group fun _ => List.not_mem_nil
      rwa [group_alone List.not_mem_nil] at whole
    case join => simp
    case sizes =>
      intro field mem
      rw [List.mem_singleton.mp mem]
      rfl

/-- The split of a text in some mode is right exactly if its condition holds. -/
theorem right_call_iff (garbage : Nat → UInt8) (call : Call) (nul : 0 ∉ text)
    (valid : call.Valid st text) :
    Right (UInt8.ofInt separator) max text (call.run garbage st arrays text separator max) ↔
      FieldsFit arrays (UInt8.ofInt separator) max text ∧
        call.Fits st text (UInt8.ofInt separator) max := by
  cases call with
  | shared explicit =>
    have given : false = false → 0 < givenLength explicit text →
        givenLength explicit text = text.length := by
      intro _ positive
      rw [givenLength] at positive ⊢
      split
      case isTrue => rfl
      case isFalse none => rw [if_neg none] at positive; omega
    rw [Call.run, LongStringSplit, right_splitText_iff nul given (fun dup => Bool.noConfusion dup)]
    refine and_congr_right fun _ => ?_
    rw [Call.Fits]
    simp
  | own length =>
    obtain ⟨inv, some_buf⟩ := valid
    obtain ⟨b, buf⟩ := Option.isSome_iff_exists.mp some_buf
    have string := string_of_inv inv buf nul
    rw [Call.run, LongStringSplit, buf, Option.bind_some, string, Option.bind_some,
      right_splitText_iff nul (fun no_dup => Bool.noConfusion no_dup) (fun _ => inv.1.len)]
    exact and_congr_right fun _ => iff_of_true (.inl rfl) trivial
  | copied explicit =>
    obtain ⟨⟨t, counted⟩, int⟩ := valid
    have same : cString text = text := cString_eq_self nul
    cases explicit with
    | false =>
      rw [Call.run, givenLength, if_neg Bool.false_ne_true, Call.Fits]
      by_cases small : text.length < 2147483648
      · by_cases fits : CopyFits st text
        · have keeps := copyText_keeps garbage counted (same.symm ▸ small) (same.symm ▸ fits)
          rw [same] at keeps
          rw [right_of_keeps nul (by decide) keeps]
          exact (and_iff_left fits).symm
        · refine iff_of_false ?_ fun both => fits both.2
          rintro ⟨s, run, _⟩
          rw [LongStringSplit, copyText_none counted (same.symm ▸ small) (same.symm ▸ fits)] at run
          cases run
      · exact iff_of_false (fun right => small (small_of_copied right))
          fun both => small both.1.small
    | true =>
      have small := int rfl
      rw [Call.run, givenLength, if_pos rfl, Call.Fits]
      by_cases empty : text = []
      · subst empty
        have copied : LongStringCopy garbage st [] 0 = some { st with len := 0 } := rfl
        rw [if_pos rfl, fieldsFit_nil_iff, EmptyFits, LongStringSplit, List.length_nil,
          Int.natCast_zero, copied, Option.bind_some]
        cases string : st.buf.bind Buffer.string with
        | none =>
          refine iff_of_false ?_ ?_
          · rintro ⟨s, run, _⟩
            cases run
          · rintro ⟨_, t, same, _⟩
            cases same
        | some t =>
          obtain ⟨b, _, string'⟩ := Option.bind_eq_some_iff.mp string
          rw [Option.bind_some, right_empty_iff (nul_of_string string')]
          refine and_congr_right fun _ => ⟨fun rest => ⟨t, rfl, rest⟩, ?_⟩
          rintro ⟨t', same, rest⟩
          rwa [Option.some.inj same]
      · have some_len : (text.length : Int) ≠ 0 := by
          have some_byte := List.length_pos_of_ne_nil empty
          omega
        rw [if_neg empty]
        by_cases fits : BlockFits { st with len := 0 } text text.length
        · rw [right_of_keeps nul some_len (copyBlock_keeps garbage counted empty fits)]
          exact (and_iff_left fits).symm
        · refine iff_of_false ?_ fun both => fits both.2
          rintro ⟨s, run, _⟩
          rw [LongStringSplit, copyBlock_none counted empty small fits] at run
          cases run

/-- Splits in two modes are right and agree exactly if the fields of the text fit and each mode
meets its condition. -/
theorem split_join_iff (garbage : Nat → UInt8) (st : LongString) (arrays : Option FieldArrays)
    (text : Text) (separator maxfields : Int) (call call' : Call) (nul : 0 ∉ text)
    (valid : call.Valid st text) (valid' : call'.Valid st text) :
    (Right (UInt8.ofInt separator) maxfields text
        (call.run garbage st arrays text separator maxfields) ∧
      Right (UInt8.ofInt separator) maxfields text
        (call'.run garbage st arrays text separator maxfields) ∧
      (call.run garbage st arrays text separator maxfields).map Split.list =
        (call'.run garbage st arrays text separator maxfields).map Split.list) ↔
      FieldsFit arrays (UInt8.ofInt separator) maxfields text ∧
        call.Fits st text (UInt8.ofInt separator) maxfields ∧
        call'.Fits st text (UInt8.ofInt separator) maxfields := by
  rw [right_call_iff garbage call nul valid, right_call_iff garbage call' nul valid']
  constructor
  · rintro ⟨⟨fields, fits⟩, ⟨_, fits'⟩, _⟩
    exact ⟨fields, fits, fits'⟩
  · rintro ⟨fields, fits, fits'⟩
    refine ⟨⟨fields, fits⟩, ⟨fields, fits'⟩, ?_⟩
    obtain ⟨s, run, _, split⟩ := (right_call_iff garbage call nul valid).mpr ⟨fields, fits⟩
    obtain ⟨s', run', _, split'⟩ := (right_call_iff garbage call' nul valid').mpr ⟨fields, fits'⟩
    rw [run, run', Option.map_some, Option.map_some, split.unique split']

/-- A text in three fields, where it stands and as a copy. -/
theorem three_fields_agree :
    Right 58 5 (ascii "a:bc:")
        ((Call.shared true).run (fun _ => 0) ⟨0, 4, 0, none⟩ none (ascii "a:bc:") 58 5) ∧
      Right 58 5 (ascii "a:bc:")
        ((Call.copied false).run (fun _ => 0) ⟨0, 4, 0, none⟩ none (ascii "a:bc:") 58 5) ∧
      ((Call.shared true).run (fun _ => 0) ⟨0, 4, 0, none⟩ none (ascii "a:bc:") 58 5).map Split.list =
        ((Call.copied false).run (fun _ => 0) ⟨0, 4, 0, none⟩ none (ascii "a:bc:") 58 5).map
          Split.list :=
  (split_join_iff (fun _ => 0) ⟨0, 4, 0, none⟩ none (ascii "a:bc:") 58 5 (.shared true)
    (.copied false) (by decide) (fun _ => by decide)
    ⟨⟨[], (inv_none 4).1⟩, fun none => Bool.noConfusion none⟩).mpr
    ⟨by decide, show ¬ (1 < (5 : Int) ∧ (5 : Int) ≤ ((ascii "a:bc:").splitOn 58).length) by decide,
      show CopyFits ⟨0, 4, 0, none⟩ (ascii "a:bc:") by decide⟩

/-- With a maximum of two fields the second size of `a:b` is two. -/
theorem last_size_counts_nul :
    ¬ ∀ (garbage : Nat → UInt8) (st : LongString) (arrays : Option FieldArrays) (text : Text)
      (separator maxfields : Int) (call call' : Call), 0 ∉ text → call.Valid st text →
      call'.Valid st text →
      Right (UInt8.ofInt separator) maxfields text
          (call.run garbage st arrays text separator maxfields) ∧
        Right (UInt8.ofInt separator) maxfields text
          (call'.run garbage st arrays text separator maxfields) ∧
        (call.run garbage st arrays text separator maxfields).map Split.list =
          (call'.run garbage st arrays text separator maxfields).map Split.list := by
  intro h
  obtain ⟨⟨s, run, _, split⟩, _, _⟩ := h (fun _ => 0) ⟨0, 4, 0, none⟩ none (ascii "a:b") 58 2
    (.shared false) (.shared false) (by decide) (fun none => Bool.noConfusion none)
    (fun none => Bool.noConfusion none)
  have result : (Call.shared false).run (fun _ => 0) ⟨0, 4, 0, none⟩ none (ascii "a:b") 58 2 =
      some ⟨2, ascii "a:b", [0, 2], [1, 2]⟩ := by decide
  rw [result] at run
  rw [← Option.some.inj run] at split
  have size := split.sizes (ascii "b", 2) (by decide)
  exact absurd size (by decide)

end Calls

end SourceNavigator.LongStr
