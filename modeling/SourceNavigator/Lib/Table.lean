import Mathlib.Data.List.Sort

/-!
Tables sorted by their keys, and a cursor that reads the keys with a prefix.

A table maps keys, which are lists, to values and keeps them in lexicographic
order. `scan` is what a cursor reads that is set to the first key not below a
prefix and moved on until it meets a key without the prefix.

* `mem_scan` says that the cursor meets exactly the entries whose key has the
  prefix: in this order they stand together.
* `nodup_scan` says that it meets none of them twice.
-/

namespace Lib

universe u v

/-- Finite maps in the lexicographic order of their keys. -/
abbrev Table (α : Type u) (β : Type v) [Ord α] : Type (max u v) :=
  Std.TreeMap (List α) β (List.compareLex compare)

namespace Table

variable {α : Type u} {β : Type v} [Ord α]

/-- Below in the order of the keys. -/
def below (p k : List α) : Bool := List.compareLex compare k p == .lt

/-- What a cursor set to `p` meets before the first key that does not start with `p`. -/
def scan [BEq α] (t : Table α β) (p : List α) : List (List α × β) :=
  (t.toList.dropWhile fun e => below p e.1).takeWhile fun e => p.isPrefixOf e.1

/-- The table with the entries of a list put one after the other. -/
def insertAll (t : Table α β) (es : List (List α × β)) : Table α β :=
  es.foldl (fun t e => t.insert e.1 e.2) t

/-- The table without the keys of a list. -/
def eraseAll (t : Table α β) (ks : List (List α)) : Table α β :=
  ks.foldl (fun t k => t.erase k) t

/-! ### The order of keys with a common prefix -/

section Order

variable [Std.LawfulEqOrd α] {p k k' : List α}

theorem not_below_of_starts (h : p <+: k) : below p k = false := by
  induction p generalizing k with
  | nil => cases k <;> simp [below, List.compareLex_nil_nil, List.compareLex_cons_nil]
  | cons a p ih =>
    obtain ⟨s, rfl⟩ := h
    have rest := ih (List.prefix_append p s)
    simpa [below, List.compareLex_cons_cons] using rest

/-- Between a prefix and a key that starts with it all keys start with it. -/
theorem prefix_of_between (low : below p k = false) (high : p <+: k')
    (order : List.compareLex compare k k' = .lt) : p <+: k := by
  induction p generalizing k k' with
  | nil => exact List.nil_prefix
  | cons a p ih =>
    obtain ⟨s, rfl⟩ := high
    cases k with
    | nil => simp [below, List.compareLex_nil_cons] at low
    | cons b k =>
      have notLt : compare b a ≠ .lt := by
        intro lt
        simp [below, List.compareLex_cons_cons, lt] at low
      have same : compare b a = .eq := by
        cases c : compare b a with
        | lt => exact absurd c notLt
        | eq => rfl
        | gt => simp [List.compareLex_cons_cons, c] at order
      obtain rfl := Std.LawfulEqOrd.eq_of_compare same
      simp only [below, List.compareLex_cons_cons, same, Ordering.then] at low order
      rw [List.cons_append, List.compareLex_cons_cons, same] at order
      exact List.cons_prefix_cons.mpr ⟨rfl, ih low (List.prefix_append p s) order⟩

end Order

/-! ### The cursor -/

section Scan

variable [BEq α] [LawfulBEq α] [Std.TransOrd α] [Std.LawfulEqOrd α]

/-- In a sorted list the entries with a prefix are the ones the cursor meets. -/
theorem mem_cursor_iff {p : List α} {e : List α × β} {l : List (List α × β)}
    (sorted : l.Pairwise fun a b => List.compareLex compare a.1 b.1 = .lt) :
    e ∈ (l.dropWhile fun e => below p e.1).takeWhile (fun e => p.isPrefixOf e.1) ↔
      e ∈ l ∧ p <+: e.1 := by
  induction l with
  | nil => simp
  | cons a l ih =>
    obtain ⟨first, rest⟩ := List.pairwise_cons.mp sorted
    rw [List.dropWhile_cons]
    split
    next low =>
      rw [ih rest, List.mem_cons]
      constructor
      · rintro ⟨mem, pre⟩
        exact ⟨.inr mem, pre⟩
      · rintro ⟨rfl | mem, pre⟩
        · rw [not_below_of_starts pre] at low
          exact absurd low Bool.false_ne_true
        · exact ⟨mem, pre⟩
    next high =>
      rw [Bool.not_eq_true] at high
      -- from here on no key is below the prefix, so the cursor only takes
      have take : ∀ x ∈ a :: l, p <+: x.1 → p <+: a.1 := by
        intro x mem pre
        rcases List.mem_cons.mp mem with rfl | mem
        · exact pre
        · exact prefix_of_between high pre (first x mem)
      have none_low : ∀ x ∈ l, below p a.1 = false → p <+: a.1 → below p x.1 = false := by
        intro x mem _ pre
        by_contra low
        rw [Bool.not_eq_false, below, beq_iff_eq] at low
        have trans := Std.TransCmp.lt_trans (first x mem) low
        rw [below, trans] at high
        exact absurd high (by decide)
      rw [List.takeWhile_cons]
      split
      next pre =>
        rw [List.isPrefixOf_iff_prefix] at pre
        have same : l.dropWhile (fun e => below p e.1) = l := by
          cases l with
          | nil => rfl
          | cons b l =>
            have := none_low b List.mem_cons_self high pre
            rw [List.dropWhile_cons_of_neg (by rw [this]; exact Bool.false_ne_true)]
        rw [List.mem_cons, List.mem_cons, ← same, ih rest, same]
        constructor
        · rintro (rfl | ⟨mem, has⟩)
          · exact ⟨.inl rfl, pre⟩
          · exact ⟨.inr mem, has⟩
        · rintro ⟨rfl | mem, has⟩
          · exact .inl rfl
          · exact .inr ⟨mem, has⟩
      next other =>
        rw [List.isPrefixOf_iff_prefix] at other
        constructor
        · intro mem
          exact absurd mem List.not_mem_nil
        · rintro ⟨mem, has⟩
          exact absurd (take e mem has) other

variable {t : Table α β} {p k : List α} {v : β}

/-- The cursor meets the entries whose key starts with the prefix. -/
theorem mem_scan : (k, v) ∈ t.scan p ↔ t[k]? = some v ∧ p <+: k := by
  have sorted : t.toList.Pairwise fun a b => List.compareLex compare a.1 b.1 = .lt :=
    Std.TreeMap.ordered_keys_toList
  rw [scan, mem_cursor_iff sorted, Std.TreeMap.mem_toList_iff_getElem?_eq_some]

omit [LawfulBEq α] in
/-- The cursor meets no key twice. -/
theorem nodup_scan : ((t.scan p).map Prod.fst).Nodup := by
  have sub : (t.scan p).Sublist t.toList :=
    (List.takeWhile_sublist _).trans (List.dropWhile_sublist _)
  have distinct : t.toList.Pairwise fun a b => ¬ List.compareLex compare a.1 b.1 = .eq :=
    Std.TreeMap.distinct_keys_toList
  rw [List.nodup_iff_pairwise_ne, List.pairwise_map]
  refine (distinct.sublist sub).imp ?_
  intro a b different same
  exact different (Std.LawfulEqCmp.compare_eq_iff_eq.mpr same)

end Scan

/-! ### Lookups after a change -/

section Lookup

variable [DecidableEq α] [Std.TransOrd α] [Std.LawfulEqOrd α] {t : Table α β} {k k' : List α} {v : β}

theorem getElem?_insert : (t.insert k v)[k']? = if k' = k then some v else t[k']? := by
  rw [Std.TreeMap.getElem?_insert]
  simp only [Std.LawfulEqCmp.compare_eq_iff_eq]
  exact if_congr eq_comm rfl rfl

theorem getElem?_erase : (t.erase k)[k']? = if k' = k then none else t[k']? := by
  rw [Std.TreeMap.getElem?_erase]
  simp only [Std.LawfulEqCmp.compare_eq_iff_eq]
  exact if_congr eq_comm rfl rfl

theorem getElem?_eraseAll {ks : List (List α)} :
    (t.eraseAll ks)[k']? = if k' ∈ ks then none else t[k']? := by
  induction ks generalizing t with
  | nil => simp [eraseAll]
  | cons k ks ih =>
    rw [eraseAll, List.foldl_cons, ← eraseAll, ih, getElem?_erase]
    by_cases mem : k' ∈ ks
    · simp [mem]
    · simp [mem]

/-- What is found after a list was put was in the list or there before. -/
theorem mem_of_getElem?_insertAll {es : List (List α × β)}
    (h : (t.insertAll es)[k]? = some v) : (k, v) ∈ es ∨ t[k]? = some v := by
  induction es generalizing t with
  | nil => exact .inr h
  | cons e es ih =>
    rw [insertAll, List.foldl_cons, ← insertAll] at h
    rcases ih h with mem | found
    · exact .inl (List.mem_cons_of_mem e mem)
    · rw [getElem?_insert] at found
      split at found
      next same =>
        have entry : (k, v) = e := by rw [same, ← Option.some.inj found]
        rw [entry]
        exact .inl List.mem_cons_self
      next => exact .inr found

/-- What a list puts is found, if it puts one value for each key. -/
theorem getElem?_insertAll_of_mem {es : List (List α × β)}
    (single : ∀ w, (k, w) ∈ es → w = v) (h : (k, v) ∈ es ∨ t[k]? = some v) :
    (t.insertAll es)[k]? = some v := by
  induction es generalizing t with
  | nil => exact h.resolve_left List.not_mem_nil
  | cons e es ih =>
    rw [insertAll, List.foldl_cons, ← insertAll]
    apply ih fun w mem => single w (List.mem_cons_of_mem e mem)
    rw [getElem?_insert]
    split
    next same =>
      have value : e.2 = v := single e.2 (same ▸ List.mem_cons_self)
      exact .inr (congrArg some value)
    next other =>
      rcases h with mem | found
      · rcases List.mem_cons.mp mem with entry | mem
        · exact absurd (congrArg Prod.fst entry) other
        · exact .inl mem
      · exact .inr found

end Lookup

end Table

end Lib
