/-!
Computations with a bound on their steps.

A loop or recursion of a program that need not end is modelled by a function of
a step bound with values in `Option`, where `none` says that the bound ran out.
`Returns f a` says that some bound gives the result `a`, which is what it means
for the program to return `a`; `Mono f` says that a larger bound gives the same
result, and then the result is unique. The rules say how both go through the
ways such functions are put together, so that bounds need not be computed.
-/

namespace Lib.Fuel

universe u v w

variable {α : Type u} {β : Type v} {γ : Type w}

/-- One more step of the bound keeps a result. -/
def Mono (f : Nat → Option α) : Prop :=
  ∀ n a, f n = some a → f (n + 1) = some a

/-- Some bound gives the result. -/
def Returns (f : Nat → Option α) (a : α) : Prop :=
  ∃ n, f n = some a

variable {f : Nat → Option α} {g : Nat → α → Option β} {a a' : α} {b : β}

theorem Mono.le (mono : Mono f) {m n : Nat} (h : m ≤ n) (found : f m = some a) :
    f n = some a := by
  induction h with
  | refl => exact found
  | step _ ih => exact mono _ _ ih

/-- A program returns at most one result. -/
theorem Mono.unique (mono : Mono f) (h : Returns f a) (h' : Returns f a') : a = a' := by
  obtain ⟨n, hn⟩ := h
  obtain ⟨m, hm⟩ := h'
  have left := mono.le (Nat.le_max_left n m) hn
  have right := mono.le (Nat.le_max_right n m) hm
  exact Option.some.inj (left.symm.trans right)

/-! ### Composition -/

theorem Mono.const (x : Option α) : Mono fun _ => x :=
  fun _ _ h => h

theorem returns_const {x : Option α} : Returns (fun _ => x) a ↔ x = some a :=
  ⟨fun ⟨_, h⟩ => h, fun h => ⟨0, h⟩⟩

theorem Mono.map (mono : Mono f) (k : α → β) : Mono fun n => (f n).map k := by
  intro n b found
  obtain ⟨a, ha, rfl⟩ := Option.map_eq_some_iff.mp found
  exact Option.map_eq_some_iff.mpr ⟨a, mono n a ha, rfl⟩

theorem returns_map {k : α → β} :
    Returns (fun n => (f n).map k) b ↔ ∃ a, Returns f a ∧ k a = b := by
  constructor
  · rintro ⟨n, found⟩
    obtain ⟨a, ha, rfl⟩ := Option.map_eq_some_iff.mp found
    exact ⟨a, ⟨n, ha⟩, rfl⟩
  · rintro ⟨a, ⟨n, ha⟩, rfl⟩
    exact ⟨n, Option.map_eq_some_iff.mpr ⟨a, ha, rfl⟩⟩

theorem Mono.bind (mono : Mono f) (next : ∀ a, Mono fun n => g n a) :
    Mono fun n => (f n).bind (g n) := by
  intro n b found
  obtain ⟨a, ha, hb⟩ := Option.bind_eq_some_iff.mp found
  exact Option.bind_eq_some_iff.mpr ⟨a, mono n a ha, next a n b hb⟩

/-- Two programs one after the other. -/
theorem returns_bind (mono : Mono f) (next : ∀ a, Mono fun n => g n a) :
    Returns (fun n => (f n).bind (g n)) b ↔
      ∃ a, Returns f a ∧ Returns (fun n => g n a) b := by
  constructor
  · rintro ⟨n, found⟩
    obtain ⟨a, ha, hb⟩ := Option.bind_eq_some_iff.mp found
    exact ⟨a, ⟨n, ha⟩, n, hb⟩
  · rintro ⟨a, ⟨n, ha⟩, m, hb⟩
    refine ⟨max n m, Option.bind_eq_some_iff.mpr ⟨a, ?_, ?_⟩⟩
    · exact mono.le (Nat.le_max_left n m) ha
    · exact (next a).le (Nat.le_max_right n m) hb

/-- A recursive call has one step less. -/
theorem returns_succ (mono : Mono f) : Returns (fun n => f (n + 1)) a ↔ Returns f a :=
  ⟨fun ⟨n, h⟩ => ⟨n + 1, h⟩, fun ⟨n, h⟩ => ⟨n, mono n a h⟩⟩

/-! ### Loops over a list -/

variable {step : Nat → α → γ → Option α}

theorem foldlM_mono {l : List γ} {k k' : α → γ → Option α}
    (keep : ∀ s c t, k s c = some t → k' s c = some t) (h : l.foldlM k a = some a') :
    l.foldlM k' a = some a' := by
  induction l generalizing a with
  | nil => exact h
  | cons c l ih =>
    rw [List.foldlM_cons] at h ⊢
    obtain ⟨m, first, rest⟩ := Option.bind_eq_some_iff.mp h
    exact Option.bind_eq_some_iff.mpr ⟨m, keep _ _ _ first, ih rest⟩

theorem Mono.foldlM (mono : ∀ a c, Mono fun n => step n a c) (l : List γ) (a : α) :
    Mono fun n => l.foldlM (step n) a :=
  fun n _ h => foldlM_mono (fun s c t => mono s c n t) h

theorem returns_foldlM_nil : Returns (fun n => ([] : List γ).foldlM (step n) a) a' ↔ a = a' := by
  simp [returns_const]

theorem returns_foldlM_cons (mono : ∀ a c, Mono fun n => step n a c) {c : γ} {l : List γ} :
    Returns (fun n => (c :: l).foldlM (step n) a) a' ↔
      ∃ m, Returns (fun n => step n a c) m ∧ Returns (fun n => l.foldlM (step n) m) a' := by
  simp only [List.foldlM_cons]
  exact returns_bind (mono a c) fun m => Mono.foldlM mono l m

/-! ### Programs that can fail -/

section Failure

variable {ε : Type w} {e : ε} {δ : Type u} {d : δ} {x : Except ε α}

@[simp]
theorem ok_bind {a : α} {next : α → Except ε δ} : (Except.ok a >>= next) = next a := rfl

/-- A value of a sequence comes from a value of its first part. -/
theorem bind_eq_ok {next : α → Except ε δ} (h : (x >>= next) = .ok d) :
    ∃ a, x = .ok a ∧ next a = .ok d := by
  cases x with
  | error e => cases h
  | ok a => exact ⟨a, rfl, h⟩

/-- A sequence does not fail with `e` if none of its parts does. -/
theorem bind_ne_error {next : α → Except ε δ} (first : x ≠ .error e)
    (rest : ∀ a, x = .ok a → next a ≠ .error e) : (x >>= next) ≠ .error e := by
  cases x with
  | error e' => exact fun h => first (congrArg Except.error (Except.error.inj h))
  | ok a => exact rest a rfl

variable {f : α → γ → Except ε α} {Inv : α → Prop}

/-- What the body of a loop keeps, the loop keeps. -/
theorem foldlM_inv {l : List γ} (keep : ∀ s c t, Inv s → f s c = .ok t → Inv t) (start : Inv a)
    (h : l.foldlM f a = .ok a') : Inv a' := by
  induction l generalizing a with
  | nil =>
    obtain rfl : a = a' := Except.ok.inj h
    exact start
  | cons c l ih =>
    rw [List.foldlM_cons] at h
    obtain ⟨m, first, rest⟩ := bind_eq_ok h
    exact ih (keep a c m start first) rest

/-- A loop does not fail with `e` if its body does not while the invariant holds. -/
theorem foldlM_ne_error {l : List γ} (keep : ∀ s c t, Inv s → f s c = .ok t → Inv t)
    (never : ∀ s c, Inv s → f s c ≠ .error e) (start : Inv a) : l.foldlM f a ≠ .error e := by
  induction l generalizing a with
  | nil => exact fun h => nomatch h
  | cons c l ih =>
    rw [List.foldlM_cons]
    exact bind_ne_error (never a c start) fun m first => ih (keep a c m start first)

/-- What every step of a loop has as its value, the loop has. -/
theorem foldlM_ok_mono {l : List γ} {k k' : α → γ → Except ε α}
    (keep : ∀ s c t, k s c = .ok t → k' s c = .ok t) (h : l.foldlM k a = .ok a') :
    l.foldlM k' a = .ok a' := by
  induction l generalizing a with
  | nil => exact h
  | cons c l ih =>
    rw [List.foldlM_cons] at h ⊢
    obtain ⟨m, first, rest⟩ := bind_eq_ok h
    rw [keep _ _ _ first]
    exact ih rest

/-- One more step of the bound keeps a value. -/
def Grows (f : Nat → Except ε α) : Prop :=
  ∀ n a, f n = .ok a → f (n + 1) = .ok a

theorem Grows.le {f : Nat → Except ε α} (grows : Grows f) {m n : Nat} (h : m ≤ n)
    (found : f m = .ok a) : f n = .ok a := by
  induction h with
  | refl => exact found
  | step _ ih => exact grows _ _ ih

theorem Grows.unique {f : Nat → Except ε α} (grows : Grows f) {m n : Nat} (h : f m = .ok a)
    (h' : f n = .ok a') : a = a' := by
  have left := grows.le (Nat.le_max_left m n) h
  have right := grows.le (Nat.le_max_right m n) h'
  exact Except.ok.inj (left.symm.trans right)

theorem Grows.foldlM {step : Nat → α → γ → Except ε α}
    (grows : ∀ a c, Grows fun n => step n a c) (l : List γ) (a : α) :
    Grows fun n => l.foldlM (step n) a :=
  fun n _ h => foldlM_ok_mono (fun s c t => grows s c n t) h

/-- A loop has a value with some bound, if each of its steps has one while the invariant holds. -/
theorem exists_foldlM_ok {step : Nat → α → γ → Except ε α} {l : List γ}
    (grows : ∀ a c, Grows fun n => step n a c)
    (each : ∀ c ∈ l, ∀ s, Inv s → ∃ n t, step n s c = .ok t ∧ Inv t) (start : Inv a) :
    ∃ n t, l.foldlM (step n) a = .ok t ∧ Inv t := by
  induction l generalizing a with
  | nil => exact ⟨0, a, rfl, start⟩
  | cons c l ih =>
    obtain ⟨n, m, first, inv⟩ := each c List.mem_cons_self a start
    obtain ⟨n', t, rest, inv'⟩ := ih (fun c' mem => each c' (List.mem_cons_of_mem c mem)) inv
    refine ⟨Nat.max n n', t, ?_, inv'⟩
    rw [List.foldlM_cons, (grows a c).le (Nat.le_max_left n n') first]
    exact (Grows.foldlM grows l m).le (Nat.le_max_right n n') rest

end Failure

end Lib.Fuel
