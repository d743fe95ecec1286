import SourceNavigator.Lib.Codes
import SourceNavigator.Parsers.LexInput

/-!
The input of the lexers in an encoding (`sn_encoded_input` in
`parsers/common/lexinput.c`).

Each call reads as many bytes as a pointer has, converts them to UTF-8, removes
the CRs in front of LFs and converts the rest to ASCII. How many bytes the
conversion used is not looked at. The conversion routines of Tcl are a parameter.

* `call_part` says what a call does with a part of the text that ends between
  two characters, and `input_correct_iff` when the whole text comes out.
-/

namespace SourceNavigator.Parsers.EncodedInput

open Lib Lib.Codes LexInput

/-! ### The conversion routines -/

/-- `Tcl_UniChar` -/
abbrev UniChar := UInt16

/-- `Tcl_UniCharToUtf` -/
def utf (ch : UniChar) : Text :=
  let n := ch.toNat
  if 0 < n ∧ n < 128 then [UInt8.ofNat n]
  else if n < 2048 then [UInt8.ofNat (192 + n / 64), UInt8.ofNat (128 + n % 64)]
  else [UInt8.ofNat (224 + n / 4096), UInt8.ofNat (128 + n / 64 % 64), UInt8.ofNat (128 + n % 64)]

/-- What a conversion reports: what it wrote, how many bytes it used, and the state behind them. -/
structure Conversion (S : Type) where
  dst : Text
  srcRead : Nat
  state : S

/-- The routines of Tcl for an encoding and for ASCII: from a state, the flags
`TCL_ENCODING_START` and `TCL_ENCODING_END`, a source and the room for the result. -/
structure Tcl (S A : Type) where
  ExternalToUtf : S → Bool → Bool → Text → Nat → Conversion S
  UtfToExternal : A → Bool → Bool → Text → Nat → Conversion A

/-- The bytes are the start of a code, and not the whole of it. -/
def Incomplete {S : Type} (enc : Codes S UInt8 UniChar) (s : S) (rest : Text) : Prop :=
  rest = [] ∨ ∃ code t, enc.step s code t ∧ rest <+: code.1 ∧ rest ≠ code.1

/-- An ASCII character, or what stands for one that ASCII lacks. -/
def asciiByte (fallback : UInt8) (ch : UniChar) : UInt8 :=
  if ch.toNat < 128 then UInt8.ofNat ch.toNat else fallback

/-- The documented behaviour: complete characters are converted if there is room, the bytes of an
incomplete one are not used, and at the end nothing is left to be written. -/
structure Tcl.Converts {S A : Type} (tcl : Tcl S A) (enc : Codes S UInt8 UniChar)
    (fallback : UInt8) : Prop where
  toUtf : ∀ s start us t rest dstLen, Run enc.step (if start then enc.initial else s) us t →
    Incomplete enc t rest → 3 * (chars us).length + 8 ≤ dstLen →
    tcl.ExternalToUtf s start false (bytes us ++ rest) dstLen =
      ⟨(chars us).flatMap utf, (bytes us).length, t⟩
  finish : ∀ s dstLen, (tcl.ExternalToUtf s false true [] dstLen).dst = []
  toAscii : ∀ a start ended (cs : List UniChar) dstLen, cs.length + 1 ≤ dstLen →
    (tcl.UtfToExternal a start ended (cs.flatMap utf) dstLen).dst = cs.map (asciiByte fallback)

/-! ### The code -/

/-- `sizeof(rawbuf)`: `rawbuf` is a pointer. -/
def sizeof_rawbuf : Nat := 8

/-- The static variables. -/
structure Statics (S A : Type) where
  start_of_file : Bool
  saved_cr : Bool
  utf8_state : S
  ascii_state : A

section Code

variable {S A : Type} (tcl : Tcl S A) (garbage : Nat → UInt8) (max_size : Nat)

/-- The text that a conversion wrote, with the NUL that Tcl puts behind it. -/
def utf8buf (dst : Text) : Chunk := ⟨dst, fun i => if i = 0 then 0 else garbage i⟩

/-- A call with an encoding: what it puts into the buffer, the variables and the stream behind it. -/
def encoded_input (st : Statics S A) (yyin : Text) : Text × Statics S A × Text :=
  let rawbuf := yyin.take sizeof_rawbuf
  let ended := rawbuf.isEmpty
  let start := !ended && st.start_of_file
  let utf8 := tcl.ExternalToUtf st.utf8_state start ended rawbuf (2 * max_size)
  let trimmed := LexInput.sn_encoded_input st.saved_cr (utf8buf garbage utf8.dst)
  let buf := tcl.UtfToExternal st.ascii_state start ended trimmed.1 max_size
  (buf.dst,
    { start_of_file := st.start_of_file && buf.dst.isEmpty
      saved_cr := trimmed.2.1
      utf8_state := utf8.state
      ascii_state := buf.state },
    yyin.drop sizeof_rawbuf)

/-- The outputs of successive calls. -/
def calls : Nat → Statics S A → Text → List Text
  | 0, _, _ => []
  | n + 1, st, yyin =>
    let call := encoded_input tcl garbage max_size st yyin
    call.1 :: calls n call.2.1 call.2.2

end Code

/-! ### What the input should be -/

/-- Every CR in front of a LF is left out. -/
def lineEnds : List UniChar → List UniChar
  | [] => []
  | c :: cs => if c = 13 ∧ cs.head? = some 10 then lineEnds cs else c :: lineEnds cs

/-- How many calls it takes to read a stream. -/
def reads (stream : Text) : Nat := (stream.length + (sizeof_rawbuf - 1)) / sizeof_rawbuf

/-- The outputs together are the text in ASCII, without the CRs in front of LFs; no call returns
nothing before the end of the stream, and every later one does. -/
def Correct {S A : Type} (tcl : Tcl S A) (garbage : Nat → UInt8) (max_size : Nat)
    (fallback : UInt8) (st : Statics S A) (us : List (Text × Option UniChar)) : Prop :=
  (calls tcl garbage max_size (reads (bytes us)) st (bytes us)).flatten =
      (lineEnds (chars us)).map (asciiByte fallback) ∧
    (∀ out ∈ calls tcl garbage max_size (reads (bytes us)) st (bytes us), out ≠ []) ∧
    ∀ n, calls tcl garbage max_size (reads (bytes us) + n) st (bytes us) =
      calls tcl garbage max_size (reads (bytes us)) st (bytes us) ++ List.replicate n []

/-! ### Line ends -/

section LineEnds

variable {c : UniChar} {cs ds : List UniChar}

/-- A byte that is no ASCII character. -/
theorem high_ne {n : Nat} {b : UInt8} (low : 128 ≤ n) (high : n < 256) (ascii : b < 128) :
    UInt8.ofNat n ≠ b := by
  rintro rfl
  rw [UInt8.lt_iff_toNat_lt, UInt8.toNat_ofNat', Nat.mod_eq_of_lt high] at ascii
  exact absurd low (Nat.not_le.mpr ascii)

/-- CR and LF are in the bytes of CR and LF only. -/
theorem mem_utf {b : UInt8} (control : b = 13 ∨ b = 10) (mem : b ∈ utf c) :
    c.toNat = b.toNat := by
  have ascii : b < 128 := by rcases control with rfl | rfl <;> decide
  have small := c.toNat_lt
  unfold utf at mem
  dsimp only at mem
  split at mem
  case isTrue one =>
    rw [List.mem_singleton] at mem
    rw [mem, UInt8.toNat_ofNat', Nat.mod_eq_of_lt (by omega)]
  case isFalse =>
    split at mem
    case isTrue two =>
      simp only [List.mem_cons, List.not_mem_nil, or_false] at mem
      rcases mem with rfl | rfl
      · exact absurd rfl (high_ne (by omega) (by omega) ascii)
      · exact absurd rfl (high_ne (by omega) (by omega) ascii)
    case isFalse =>
      simp only [List.mem_cons, List.not_mem_nil, or_false] at mem
      rcases mem with rfl | rfl | rfl
      · exact absurd rfl (high_ne (by omega) (by omega) ascii)
      · exact absurd rfl (high_ne (by omega) (by omega) ascii)
      · exact absurd rfl (high_ne (by omega) (by omega) ascii)

theorem utf_ne_nil : utf c ≠ [] := by
  unfold utf
  dsimp only
  split
  · exact List.cons_ne_nil _ _
  · split <;> exact List.cons_ne_nil _ _

/-- Bytes without a CR stay as they are. -/
theorem crlf_append_of_not_mem {x y : Text} (no_cr : (13 : UInt8) ∉ x) :
    crlf (x ++ y) = x ++ crlf y := by
  induction x with
  | nil => rfl
  | cons b x ih =>
    rw [List.mem_cons, not_or] at no_cr
    rw [List.cons_append, crlf_cons fun cr => no_cr.1 cr.1.symm, ih no_cr.2, List.cons_append]

/-- A LF comes first in the bytes where it comes first in the characters. -/
theorem head_utf : (cs.flatMap utf).head? = some 10 ↔ cs.head? = some 10 := by
  cases cs with
  | nil => simp
  | cons d cs =>
    rw [List.flatMap_cons, List.head?_append_of_ne_nil _ utf_ne_nil, List.head?_cons]
    constructor
    · intro head
      have same : d.toNat = (10 : UniChar).toNat := mem_utf (.inr rfl) (List.mem_of_head? head)
      rw [UInt16.toNat_inj.mp same]
    · intro same
      rw [Option.some.inj same]
      rfl

theorem crlf_flatMap_utf (cs : List UniChar) : crlf (cs.flatMap utf) = (lineEnds cs).flatMap utf := by
  induction cs with
  | nil => rfl
  | cons c cs ih =>
    rw [List.flatMap_cons, lineEnds]
    by_cases cr : c = 13
    · subst cr
      have byte : utf 13 = [13] := rfl
      rw [byte, List.singleton_append]
      by_cases lf : cs.head? = some 10
      · rw [if_pos ⟨rfl, lf⟩]
        obtain ⟨more, parts⟩ := List.head?_eq_some_iff.mp (head_utf.mpr lf)
        rw [parts] at ih ⊢
        rw [crlf_remove, ← ih, crlf_cons]
        rintro ⟨cr, -⟩
        cases cr
      · rw [if_neg fun both => lf both.2, crlf_cons fun both => lf (head_utf.mp both.2), ih,
          List.flatMap_cons, byte, List.singleton_append]
    · have no_cr : (13 : UInt8) ∉ utf c := by
        intro mem
        have same : c.toNat = (13 : UniChar).toNat := mem_utf (.inl rfl) mem
        exact cr (UInt16.toNat_inj.mp same)
      rw [if_neg fun both => cr both.1, crlf_append_of_not_mem no_cr, ih, List.flatMap_cons]

theorem lineEnds_eq_nil : lineEnds cs = [] ↔ cs = [] := by
  induction cs with
  | nil => exact ⟨fun _ => rfl, fun _ => rfl⟩
  | cons c cs ih =>
    rw [lineEnds]
    split
    case isTrue crlf =>
      refine ⟨fun nothing => ?_, fun nothing => by cases nothing⟩
      rw [ih.mp nothing] at crlf
      cases crlf.2
    case isFalse => simp

theorem length_lineEnds_le (cs : List UniChar) : (lineEnds cs).length ≤ cs.length := by
  induction cs with
  | nil => exact Nat.le_refl 0
  | cons c cs ih =>
    rw [lineEnds, List.length_cons]
    split
    case isTrue => omega
    case isFalse =>
      rw [List.length_cons]
      omega

/-- A CR at the end of the first text has its LF at the start of the second. -/
def Severed (cs ds : List UniChar) : Prop := cs.getLast? = some 13 ∧ ds.head? = some 10

instance : Decidable (Severed cs ds) := inferInstanceAs (Decidable (_ ∧ _))

/-- Two texts one after the other. -/
theorem lineEnds_append (cs ds : List UniChar) :
    (¬ Severed cs ds → lineEnds (cs ++ ds) = lineEnds cs ++ lineEnds ds) ∧
      (Severed cs ds →
        (lineEnds (cs ++ ds)).length + 1 = (lineEnds cs).length + (lineEnds ds).length) := by
  induction cs with
  | nil => exact ⟨fun _ => rfl, fun severed => by cases severed.1⟩
  | cons c cs ih =>
    rw [List.cons_append, lineEnds, lineEnds]
    cases cs with
    | nil =>
      have single : Severed [c] ds ↔ c = 13 ∧ ds.head? = some 10 := by
        unfold Severed
        rw [List.getLast?_singleton, Option.some_inj]
      rw [single, List.nil_append]
      refine ⟨fun apart => ?_, fun severed => ?_⟩
      · rw [if_neg apart, if_neg fun h => (by cases h.2)]
        rfl
      · rw [if_pos severed, if_neg fun h => (by cases h.2), List.length_cons]
        exact Nat.add_comm _ _
    | cons d cs =>
      have same : Severed (c :: d :: cs) ds ↔ Severed (d :: cs) ds := by
        unfold Severed
        rw [List.getLast?_cons_cons]
      rw [same, List.cons_append, List.head?_cons, List.head?_cons, ← List.cons_append]
      split
      case isTrue => exact ih
      case isFalse =>
        refine ⟨fun apart => ?_, fun severed => ?_⟩
        · rw [ih.1 apart, List.cons_append]
        · rw [List.length_cons, List.length_cons]
          have := ih.2 severed
          omega

end LineEnds

/-! ### A call -/

section Call

variable {S A : Type} {tcl : Tcl S A} {enc : Codes S UInt8 UniChar} {fallback : UInt8}
  {garbage : Nat → UInt8} {max_size : Nat} {st : Statics S A} {s t : S}
  {part : List (Text × Option UniChar)} {parts : List (List (Text × Option UniChar))} {yyin : Text}

/-- The next call starts its conversion in the state. -/
def Statics.At (enc : Codes S UInt8 UniChar) (st : Statics S A) (s : S) : Prop :=
  (if st.start_of_file then enc.initial else st.utf8_state) = s

/-- What a part of the text is to become. -/
def output (fallback : UInt8) (part : List (Text × Option UniChar)) : Text :=
  (lineEnds (chars part)).map (asciiByte fallback)

theorem output_eq_nil : output fallback part = [] ↔ chars part = [] := by
  rw [output, List.map_eq_nil_iff, lineEnds_eq_nil]

/-- The text that a conversion wrote comes out without the CRs in front of LFs. -/
theorem trimmed_eq (saved_cr : Bool) (cs : List UniChar) :
    (LexInput.sn_encoded_input saved_cr (utf8buf garbage (cs.flatMap utf))).1 =
      (lineEnds cs).flatMap utf := by
  have nul : (utf8buf garbage (cs.flatMap utf)).behind 0 = 0 := rfl
  have quiet : (utf8buf garbage (cs.flatMap utf)).Quiet := by
    rw [Chunk.Quiet, nul]
    decide
  rw [output_quiet quiet, ← crlf_flatMap_utf]
  rfl

/-- The step lemma: a call converts a part of the text. -/
theorem call_part (converts : tcl.Converts enc fallback) (room : 16 ≤ max_size)
    (at_ : st.At enc s) (run : Run enc.step s part t) (some_bytes : bytes part ≠ [])
    (le : (bytes part).length ≤ sizeof_rawbuf) (piece : yyin.take sizeof_rawbuf = bytes part) :
    (encoded_input tcl garbage max_size st yyin).1 = output fallback part ∧
      (chars part ≠ [] → (encoded_input tcl garbage max_size st yyin).2.1.At enc t) := by
  have few : (chars part).length ≤ 8 := Nat.le_trans (length_chars_le run) le
  have fewer := length_lineEnds_le (chars part)
  have going : (bytes part).isEmpty = false := by simpa using some_bytes
  have converted : tcl.ExternalToUtf st.utf8_state st.start_of_file false (bytes part)
      (2 * max_size) = ⟨(chars part).flatMap utf, (bytes part).length, t⟩ := by
    rw [← List.append_nil (bytes part)]
    rw [Statics.At] at at_
    have exact_ := converts.toUtf st.utf8_state st.start_of_file part t [] (2 * max_size)
      (by rw [at_]; exact run) (.inl rfl) (by omega)
    rw [exact_, List.append_nil]
  have written := converts.toAscii st.ascii_state st.start_of_file false (lineEnds (chars part))
    max_size (by omega)
  have out : (encoded_input tcl garbage max_size st yyin).1 = output fallback part := by
    unfold encoded_input
    dsimp only
    rw [piece, going, Bool.not_false, Bool.true_and, converted, trimmed_eq, written]
    rfl
  refine ⟨out, fun some_chars => ?_⟩
  have state : (encoded_input tcl garbage max_size st yyin).2.1.utf8_state = t := by
    unfold encoded_input
    dsimp only
    rw [piece, going, Bool.not_false, Bool.true_and, converted]
  have started : (encoded_input tcl garbage max_size st yyin).2.1.start_of_file = false := by
    change (st.start_of_file && (encoded_input tcl garbage max_size st yyin).1.isEmpty) = false
    rw [out, Bool.and_eq_false_iff]
    exact .inr (by simpa [output_eq_nil] using some_chars)
  rw [Statics.At, started, state]
  rfl

/-- The calls convert one part after the other, as long as each of them has a character. -/
theorem calls_parts (converts : tcl.Converts enc fallback) (room : 16 ≤ max_size)
    (at_ : st.At enc s) (run : Run enc.step s parts.flatten t) (cut : Cut sizeof_rawbuf parts)
    (going : (∀ part ∈ parts, chars part ≠ []) ∨
      ∀ out ∈ calls tcl garbage max_size parts.length st (bytes parts.flatten), out ≠ []) :
    calls tcl garbage max_size parts.length st (bytes parts.flatten) = parts.map (output fallback) := by
  induction parts generalizing st s with
  | nil => rfl
  | cons part parts ih =>
    rw [List.flatten_cons] at run
    obtain ⟨u, first, rest⟩ := run.split
    have positive : 0 < sizeof_rawbuf := by decide
    have out_next : (encoded_input tcl garbage max_size st (bytes (part :: parts).flatten)).1 =
          output fallback part ∧ (chars part ≠ [] →
        (encoded_input tcl garbage max_size st (bytes (part :: parts).flatten)).2.1.At enc u) :=
      call_part converts room at_ first (cut.ne_nil positive) cut.le cut.take
    obtain ⟨out, next⟩ := out_next
    have rest_stream : (encoded_input tcl garbage max_size st (bytes (part :: parts).flatten)).2.2 =
        bytes parts.flatten := cut.drop
    have some_chars : chars part ≠ [] := by
      rcases going with parts_going | outs_going
      · exact parts_going part List.mem_cons_self
      · have some_out := outs_going _ List.mem_cons_self
        rw [out] at some_out
        exact fun none_ => some_out (output_eq_nil.mpr none_)
    have later := ih (next some_chars) rest cut.tail
    rw [List.length_cons, calls, out, rest_stream, List.map_cons]
    rw [List.length_cons, calls, rest_stream] at going
    rw [later]
    exact going.imp (fun h part' mem => h part' (List.mem_cons_of_mem part mem))
      fun h out mem => h out (List.mem_cons_of_mem _ mem)

/-- At the end of the stream nothing comes out. -/
theorem calls_end (converts : tcl.Converts enc fallback) (some_room : 1 ≤ max_size) (n : Nat)
    (st : Statics S A) : calls tcl garbage max_size n st [] = List.replicate n [] := by
  induction n generalizing st with
  | zero => rfl
  | succ n ih =>
    have nothing : (encoded_input tcl garbage max_size st []).1 = [] := by
      have trimmed : (LexInput.sn_encoded_input st.saved_cr (utf8buf garbage [])).1 = [] :=
        trimmed_eq st.saved_cr []
      have written : (tcl.UtfToExternal st.ascii_state false true [] max_size).dst = [] :=
        converts.toAscii st.ascii_state false true [] max_size some_room
      unfold encoded_input
      dsimp only
      rw [List.take_nil, List.isEmpty_nil, Bool.not_true, Bool.false_and, converts.finish,
        trimmed, written]
    rw [calls, nothing, List.replicate_succ]
    exact congrArg _ (ih _)

/-- Once the whole stream has been read, nothing more comes out. -/
theorem calls_add (converts : tcl.Converts enc fallback) (some_room : 1 ≤ max_size) (n m : Nat)
    (st : Statics S A) (read : yyin.length ≤ sizeof_rawbuf * n) :
    calls tcl garbage max_size (n + m) st yyin =
      calls tcl garbage max_size n st yyin ++ List.replicate m [] := by
  induction n generalizing st yyin with
  | zero =>
    obtain rfl := List.length_eq_zero_iff.mp (Nat.le_zero.mp read)
    rw [Nat.zero_add, calls_end converts some_room, calls, List.nil_append]
  | succ n ih =>
    rw [Nat.add_right_comm, calls, calls, List.cons_append]
    refine congrArg _ (ih _ ?_)
    change (yyin.drop sizeof_rawbuf).length ≤ _
    rw [Nat.mul_succ] at read
    rw [List.length_drop]
    omega

/-! ### The whole text -/

/-- No part ends between a CR and its LF. -/
def Joints : List (List (Text × Option UniChar)) → Prop
  | [] => True
  | [_] => True
  | part :: next :: parts => ¬ Severed (chars part) (chars next) ∧ Joints (next :: parts)

theorem length_output_le (parts : List (List (Text × Option UniChar))) :
    (output fallback parts.flatten).length ≤ ((parts.map (output fallback)).flatten).length := by
  induction parts with
  | nil => exact Nat.le_refl 0
  | cons part parts ih =>
    rw [List.map_cons, List.flatten_cons, List.flatten_cons, List.length_append]
    have both := lineEnds_append (chars part) (chars parts.flatten)
    unfold output at ih ⊢
    rw [List.length_map] at ih ⊢
    rw [List.length_map, chars_append]
    by_cases severed : Severed (chars part) (chars parts.flatten)
    · have := both.2 severed
      omega
    · rw [both.1 severed, List.length_append]
      omega

/-- The outputs for the parts together are the text exactly if no line end is severed. -/
theorem flatten_output_iff (some_chars : ∀ part ∈ parts, chars part ≠ []) :
    (parts.map (output fallback)).flatten = output fallback parts.flatten ↔ Joints parts := by
  induction parts with
  | nil => exact ⟨fun _ => trivial, fun _ => rfl⟩
  | cons part parts ih =>
    have later := ih fun part' mem => some_chars part' (List.mem_cons_of_mem part mem)
    cases parts with
    | nil => exact ⟨fun _ => trivial, fun _ => by simp⟩
    | cons next parts =>
      have some_next := some_chars next (List.mem_cons_of_mem part List.mem_cons_self)
      have head : Severed (chars part) (chars (next :: parts).flatten) ↔
          Severed (chars part) (chars next) := by
        unfold Severed
        rw [List.flatten_cons, chars_append, List.head?_append_of_ne_nil _ some_next]
      have both := lineEnds_append (chars part) (chars (next :: parts).flatten)
      rw [head] at both
      rw [Joints, List.map_cons, List.flatten_cons, List.flatten_cons, ← later]
      by_cases severed : Severed (chars part) (chars next)
      · refine iff_of_false (fun same => ?_) fun joints => joints.1 severed
        have shorter := both.2 severed
        have le : (output fallback (next :: parts).flatten).length ≤
            (((next :: parts).map (output fallback)).flatten).length :=
          length_output_le (next :: parts)
        have lengths := congrArg List.length same
        unfold output at lengths le
        rw [List.length_append, List.length_map, List.length_map, chars_append] at lengths
        rw [List.length_map] at le
        omega
      · have whole : output fallback (part ++ (next :: parts).flatten) =
            output fallback part ++ output fallback (next :: parts).flatten := by
          unfold output
          rw [chars_append, both.1 severed, List.map_append]
        rw [whole, List.append_right_inj]
        exact ⟨fun same => ⟨severed, same⟩, fun joints => joints.2⟩

/-- The whole text comes out exactly if every part of eight bytes has a character and none ends
between a CR and its LF. -/
theorem input_correct_iff (converts : tcl.Converts enc fallback) (room : 16 ≤ max_size)
    (at_ : st.At enc enc.initial) (cut : Cut sizeof_rawbuf parts)
    (text : Run enc.step enc.initial parts.flatten t) :
    Correct tcl garbage max_size fallback st parts.flatten ↔
      (∀ part ∈ parts, chars part ≠ []) ∧ Joints parts := by
  have number : reads (bytes parts.flatten) = parts.length := (cut.length (by decide)).symm
  unfold Correct
  rw [number]
  constructor
  · rintro ⟨same, some_out, -⟩
    rw [calls_parts converts room at_ text cut (.inr some_out)] at same some_out
    have some_chars : ∀ part ∈ parts, chars part ≠ [] := fun part mem nothing =>
      some_out _ (List.mem_map_of_mem mem) (output_eq_nil.mpr nothing)
    exact ⟨some_chars, (flatten_output_iff some_chars).mp same⟩
  · rintro ⟨some_chars, joints⟩
    have whole : calls tcl garbage max_size parts.length st (bytes parts.flatten) =
        parts.map (output fallback) :=
      calls_parts converts room at_ text cut (.inl some_chars)
    rw [whole]
    refine ⟨(flatten_output_iff some_chars).mpr joints, fun out mem => ?_, fun n => ?_⟩
    · obtain ⟨part, there, rfl⟩ := List.mem_map.mp mem
      exact fun nothing => some_chars part there (output_eq_nil.mp nothing)
    · rw [← whole]
      refine calls_add converts (by omega) parts.length n st ?_
      rw [← number, reads]
      have positive : 0 < sizeof_rawbuf := by decide
      have enough := Nat.lt_div_mul_add (a := (bytes parts.flatten).length + (sizeof_rawbuf - 1)) positive
      rw [Nat.mul_comm]
      omega

end Call

/-! ### An encoding with characters of two bytes -/

/-- The character of a lead byte and the one behind it. -/
def wideChar (b d : UInt8) : UniChar := UInt16.ofNat (256 * b.toNat + d.toNat)

/-- A byte below 128 is a character, and every other one together with the byte behind it. -/
def wide : Codes Unit UInt8 UniChar where
  initial := ()
  step _ code _ :=
    (∃ b : UInt8, b < 128 ∧ code = ([b], some b.toUInt16)) ∨
      ∃ b d : UInt8, ¬ b < 128 ∧ code = ([b, d], some (wideChar b d))
  nonempty := by
    rintro s code t (⟨b, -, rfl⟩ | ⟨b, d, -, rfl⟩) <;> exact List.cons_ne_nil _ _

/-- The complete characters at the start of some bytes, and how many bytes they have. -/
def decodeWide : Text → List UniChar × Nat
  | [] => ([], 0)
  | [b] => if b < 128 then ([b.toUInt16], 1) else ([], 0)
  | b :: d :: rest =>
    if b < 128 then
      let r := decodeWide (d :: rest)
      (b.toUInt16 :: r.1, r.2 + 1)
    else
      let r := decodeWide rest
      (wideChar b d :: r.1, r.2 + 2)

/-- The conversion from UTF-8 to ASCII, with `?` for what ASCII lacks; the number is that of the
bytes that belong to the character in front of them. -/
def decodeUtf : Nat → Text → Text
  | _, [] => []
  | 0, b :: rest =>
    if b < 128 then b :: decodeUtf 0 rest
    else if b < 224 then (if b = 192 then 0 else 63) :: decodeUtf 1 rest
    else 63 :: decodeUtf 2 rest
  | n + 1, _ :: rest => decodeUtf n rest

/-- Conversion routines for it. -/
def wideTcl : Tcl Unit Unit where
  ExternalToUtf _ _ _ src _ := ⟨(decodeWide src).1.flatMap utf, (decodeWide src).2, ()⟩
  UtfToExternal _ _ _ src _ := ⟨decodeUtf 0 src, src.length, ()⟩

theorem decodeWide_low {b : UInt8} (low : b < 128) (rest : Text) :
    decodeWide (b :: rest) = (b.toUInt16 :: (decodeWide rest).1, (decodeWide rest).2 + 1) := by
  cases rest with
  | nil => exact if_pos low
  | cons d rest => exact if_pos low

theorem decodeWide_run {us : List (Text × Option UniChar)} {rest : Text}
    (run : Run wide.step () us ()) (incomplete : Incomplete wide () rest) :
    decodeWide (bytes us ++ rest) = (chars us, (bytes us).length) := by
  induction us with
  | nil =>
    rcases incomplete with rfl | ⟨code, t, step, sub, proper⟩
    · rfl
    · rcases step with ⟨b, low, rfl⟩ | ⟨b, d, high, rfl⟩
      · rcases List.prefix_cons_iff.mp sub with rfl | ⟨more, rfl, rest_sub⟩
        · rfl
        · exact absurd (congrArg (b :: ·) (List.prefix_nil.mp rest_sub)) proper
      · rcases List.prefix_cons_iff.mp sub with rfl | ⟨more, rfl, rest_sub⟩
        · rfl
        · rcases List.prefix_cons_iff.mp rest_sub with rfl | ⟨none_, rfl, end_sub⟩
          · exact if_neg high
          · exact absurd (congrArg (b :: d :: ·) (List.prefix_nil.mp end_sub)) proper
  | cons code us ih =>
    cases run with
    | cons first later =>
      rcases first with ⟨b, low, rfl⟩ | ⟨b, d, high, rfl⟩
      · have whole : bytes (([b], some b.toUInt16) :: us) ++ rest = b :: (bytes us ++ rest) := rfl
        rw [whole, decodeWide_low low, ih later]
        rfl
      · have whole : bytes (([b, d], some (wideChar b d)) :: us) ++ rest =
            b :: d :: (bytes us ++ rest) := rfl
        rw [whole, decodeWide, if_neg high, ih later]
        rfl

theorem decodeUtf_utf (c : UniChar) (rest : Text) :
    decodeUtf 0 (utf c ++ rest) = asciiByte 63 c :: decodeUtf 0 rest := by
  have small := c.toNat_lt
  have below (n k : Nat) (less : n < 256) (k_less : k < 256) :
      UInt8.ofNat n < UInt8.ofNat k ↔ n < k := by
    rw [UInt8.lt_iff_toNat_lt, UInt8.toNat_ofNat', UInt8.toNat_ofNat', Nat.mod_eq_of_lt less,
      Nat.mod_eq_of_lt k_less]
  unfold utf asciiByte
  dsimp only
  split
  case isTrue one =>
    have low : UInt8.ofNat c.toNat < 128 := (below _ 128 (by omega) (by decide)).mpr one.2
    rw [List.singleton_append, decodeUtf, if_pos low, if_pos one.2]
  case isFalse others =>
    split
    case isTrue two =>
      have high : ¬ UInt8.ofNat (192 + c.toNat / 64) < 128 := fun less => by
        have := (below _ 128 (by omega) (by decide)).mp less
        omega
      have two_bytes : UInt8.ofNat (192 + c.toNat / 64) < 224 :=
        (below _ 224 (by omega) (by decide)).mpr (by omega)
      change decodeUtf 0 (UInt8.ofNat (192 + c.toNat / 64) ::
        UInt8.ofNat (128 + c.toNat % 64) :: rest) = _
      rw [decodeUtf, if_neg high, if_pos two_bytes, decodeUtf]
      by_cases nul : c.toNat = 0
      · rw [nul]
        rfl
      · have other : UInt8.ofNat (192 + c.toNat / 64) ≠ 192 := by
          intro same
          have := congrArg UInt8.toNat same
          rw [UInt8.toNat_ofNat', Nat.mod_eq_of_lt (by omega)] at this
          change 192 + c.toNat / 64 = 192 at this
          omega
        rw [if_neg other, if_neg (by omega)]
    case isFalse =>
      have high : ¬ UInt8.ofNat (224 + c.toNat / 4096) < 128 := fun less => by
        have := (below _ 128 (by omega) (by decide)).mp less
        omega
      have three_bytes : ¬ UInt8.ofNat (224 + c.toNat / 4096) < 224 := fun less => by
        have := (below _ 224 (by omega) (by decide)).mp less
        omega
      change decodeUtf 0 (UInt8.ofNat (224 + c.toNat / 4096) ::
        UInt8.ofNat (128 + c.toNat / 64 % 64) :: UInt8.ofNat (128 + c.toNat % 64) :: rest) = _
      rw [decodeUtf, if_neg high, if_neg three_bytes, decodeUtf, decodeUtf, if_neg (by omega)]

theorem wideTcl_converts : wideTcl.Converts wide 63 where
  toUtf := by
    intro s start us t rest dstLen run incomplete _
    have decoded := decodeWide_run run incomplete
    unfold wideTcl
    dsimp only
    rw [decoded]
  finish := fun _ _ => rfl
  toAscii := by
    intro a start ended cs dstLen _
    unfold wideTcl
    dsimp only
    clear ‹cs.length + 1 ≤ dstLen›
    induction cs with
    | nil => rfl
    | cons c cs ih => rw [List.flatMap_cons, decodeUtf_utf, ih, List.map_cons]

/-- The state before the first call. -/
def unread : Statics Unit Unit := ⟨true, false, (), ()⟩

/-- The codes of some ASCII characters. -/
def plain (s : String) : List (Text × Option UniChar) :=
  (ascii s).map fun b => ([b], some b.toUInt16)

theorem run_plain {s : String} (low : ∀ b ∈ ascii s, b < 128) :
    Run wide.step () (plain s) () := by
  unfold plain
  generalize ascii s = letters at low ⊢
  induction letters with
  | nil => exact .nil ()
  | cons b rest ih =>
    exact .cons (.inl ⟨b, low b List.mem_cons_self, rfl⟩)
      (ih fun d mem => low d (List.mem_cons_of_mem b mem))

/-- A character of two bytes. -/
def kana : List (Text × Option UniChar) := [([164, 162], some (wideChar 164 162))]

theorem run_kana : Run wide.step () kana () :=
  .single (.inr ⟨164, 162, by decide, rfl⟩)

/-- A line of eight bytes, and a character of two bytes in the next one. -/
theorem input_correct_line :
    Correct wideTcl (fun _ => 0) 16 63 unread [plain "static\r\n", kana ++ plain "x"].flatten := by
  have text : Run wide.step () [plain "static\r\n", kana ++ plain "x"].flatten () :=
    (run_plain (by decide +kernel)).append ((run_kana.append (run_plain (by decide +kernel))).append (.nil ()))
  have cut : Cut sizeof_rawbuf [plain "static\r\n", kana ++ plain "x"] :=
    And.intro rfl (And.intro (by decide) (by decide))
  exact (input_correct_iff wideTcl_converts (by decide) rfl cut text).mpr
    ⟨by decide, And.intro (by decide) trivial⟩

/-- The first byte of the character is the eighth one: it is lost. -/
theorem character_split :
    ¬ ∀ (S A : Type) (tcl : Tcl S A) (enc : Codes S UInt8 UniChar) (fallback : UInt8)
        (garbage : Nat → UInt8) (max_size : Nat) (st : Statics S A) (t : S)
        (us : List (Text × Option UniChar)),
      tcl.Converts enc fallback → 16 ≤ max_size → st.At enc enc.initial → st.start_of_file = true →
      Run enc.step enc.initial us t → Correct tcl garbage max_size fallback st us := by
  intro correct
  have whole := correct Unit Unit wideTcl wide 63 (fun _ => 0) 16 unread ()
    (plain "static " ++ kana ++ plain "x") wideTcl_converts (by decide) rfl rfl
    (((run_plain (by decide +kernel)).append run_kana).append (run_plain (by decide +kernel)))
  have out := whole.1
  revert out
  decide

end SourceNavigator.Parsers.EncodedInput
