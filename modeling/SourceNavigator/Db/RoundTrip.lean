import SourceNavigator.Db.Import
import Mathlib.Algebra.BigOperators.Group.List.Basic
import SourceNavigator.Db.LongString

/-!
The way of a record from a parser to the importer (`Paf_Pipe_Write`).

A line is printed into a buffer of fixed size, converted from the system
encoding to UTF-8 and sent; when the converted line is shorter than the line, it
is sent again. References go to a file of their own and are not converted. What
a call means are its records with the newlines in place, converted to UTF-8.

* `Put.Clean` is the condition on a call; `put_round_trip` says so for a sequence.
-/

namespace SourceNavigator.Db

open SymbolType

/-! ### The pipe -/

/-- A system encoding as `Tcl_ExternalToUtfDString` converts it. As in the
single-byte encodings and in UTF-8, a byte below 64 is a character of its own
wherever it stands; what comes out is UTF-8, which has no byte 255. -/
structure SystemEncoding where
  toUtf : Text → Text
  toUtf_nil : toUtf [] = []
  toUtf_cut : ∀ (a b : Text) (c : UInt8), 0 < c → c < 64 → toUtf (a ++ c :: b) = toUtf a ++ c :: toUtf b
  escape_notMem : ∀ s, ESCAPE ∉ toUtf s

/-- The loop of `Paf_Pipe_Write`: the converted line is sent until as many bytes
have gone out as the line had. -/
def pipeLoop (converted : Text) : Nat → Nat → Option Text
  | _, 0 => some []
  | 0, _ + 1 => none
  | fuel + 1, len + 1 =>
    (pipeLoop converted fuel (len + 1 - converted.length)).map (converted ++ ·)

/-- What a line sends; `none` is undefined: the line does not fit `tmp`. -/
def Paf_Pipe_Write (E : SystemEncoding) (tmp : Text) : Option Text :=
  if 10000 ≤ tmp.length then none else pipeLoop (E.toUtf tmp) tmp.length tmp.length

/-- The lines of a call, one after the other. -/
def sendLines (E : SystemEncoding) : List Line → Option Text
  | [] => some []
  | l :: ls => (Paf_Pipe_Write E l.text).bind fun s => (sendLines E ls).map (s ++ ·)

/-! ### Calls -/

/-- A call of one of the functions that write records. -/
inductive Put
  | symbol (a : SymbolArgs)
  | file (a : FileArgs)
  | crossRef (a : CrossRefArgs)

/-- What calls have written: to the pipe and to the file of references. -/
structure Written where
  pipe : Text
  crossRefs : Text

/-- The lines of a call for the pipe. -/
def Put.pipeLines (o : Options) (escape : Text → Text) : Put → List Line
  | .symbol a => put_symbol o escape a
  | .file a => put_file a
  | .crossRef _ => []

/-- The lines of a call for the file of references. -/
def Put.crossRefLines (o : Options) : Put → Option (List Line)
  | .crossRef a => put_cross_ref o a
  | _ => some []

/-- What a call writes; `none` is undefined. -/
def Put.write (E : SystemEncoding) (o : Options) (p : Put) : Option Written :=
  (sendLines E (p.pipeLines o escapeNewlines)).bind fun pipe =>
    (p.crossRefLines o).map fun ls => ⟨pipe, (ls.map Line.text).flatten⟩

def writeAll (E : SystemEncoding) (o : Options) : List Put → Option Written
  | [] => some ⟨[], []⟩
  | p :: ps =>
    (p.write E o).bind fun w =>
      (writeAll E o ps).map fun ws => ⟨w.pipe ++ ws.pipe, w.crossRefs ++ ws.crossRefs⟩

/-- The records a call means for the pipe, with the newlines in place. -/
def Put.meant (E : SystemEncoding) (o : Options) (p : Put) : List Request :=
  (p.pipeLines o id).map fun l => .insert l.type.code (E.toUtf l.key) (E.toUtf l.data)

/-- The references a call means. -/
def Put.meantCrossRefs (o : Options) (p : Put) : List Request :=
  ((p.crossRefLines o).getD []).map fun l => .insert l.type.code l.key l.data

/-- The importer decodes what the calls wrote into what they mean. -/
def Decodes (E : SystemEncoding) (o : Options) (ps : List Put) : Prop :=
  ∃ w, writeAll E o ps = some w ∧ dbimp w.pipe = ps.flatMap (·.meant E o) ∧
    dbimp w.crossRefs = ps.flatMap (·.meantCrossRefs o)

/-- A call that the framing does not spoil. -/
structure Put.Clean (E : SystemEncoding) (o : Options) (p : Put) : Prop where
  framed : ∀ l ∈ p.pipeLines o id, Framed (E.toUtf l.key) (E.toUtf l.data)
  known : ∀ l ∈ p.pipeLines o id, l.type ≠ PAF_CROSS_REF_CPP
  fits : ∀ l ∈ p.pipeLines o id, l.text.length < 10000
  not_shorter : ∀ l ∈ p.pipeLines o id, l.text.length ≤ (E.toUtf l.text).length
  lineno : p.crossRefLines o ≠ none
  crossRefs : ∀ ls, p.crossRefLines o = some ls → ∀ l ∈ ls, Framed l.key l.data

/-! ### What a line sends -/

section Send

variable {E : SystemEncoding} {converted : Text} {fuel len : Nat}

/-- The converted line is sent at least once, and once exactly when it is not
shorter than the line. -/
theorem pipeLoop_eq (some_bytes : 0 < converted.length) (pos : 0 < len) (enough : len ≤ fuel) :
    ∃ m, pipeLoop converted fuel len = some (List.replicate m converted).flatten ∧ 0 < m ∧
      (m = 1 ↔ len ≤ converted.length) := by
  induction fuel generalizing len with
  | zero => omega
  | succ fuel ih =>
    obtain ⟨len, rfl⟩ := Nat.exists_eq_succ_of_ne_zero (by omega : len ≠ 0)
    rw [pipeLoop]
    by_cases done : len + 1 ≤ converted.length
    · refine ⟨1, ?_, Nat.one_pos, by simpa using done⟩
      rw [Nat.sub_eq_zero_of_le done]
      cases fuel <;> simp [pipeLoop]
    · obtain ⟨m, sent, more, -⟩ :=
        ih (by omega : 0 < len + 1 - converted.length) (by omega)
      refine ⟨m + 1, ?_, by omega, ?_⟩
      · rw [sent, Option.map_some, List.replicate_succ, List.flatten_cons]
      · constructor
        · omega
        · exact fun le => absurd le done

/-- Bytes below 64 are converted to themselves. -/
theorem toUtf_low {s : Text} (h : ∀ c ∈ s, 0 < c ∧ c < 64) : E.toUtf s = s := by
  induction s with
  | nil => exact E.toUtf_nil
  | cons c s ih =>
    have low := h c List.mem_cons_self
    have cut := E.toUtf_cut [] s c low.1 low.2
    rw [List.nil_append, E.toUtf_nil, List.nil_append] at cut
    rw [cut, ih fun d mem => h d (.tail _ mem)]

theorem toUtf_newline_mem {s : Text} (h : NEWLINE ∈ s) : NEWLINE ∈ E.toUtf s := by
  obtain ⟨a, b, rfl⟩ := List.append_of_mem h
  rw [E.toUtf_cut a b NEWLINE (by decide) (by decide)]
  simp

/-- The line with its key and data converted. -/
def Line.convert (E : SystemEncoding) (l : Line) : Line :=
  { l with key := E.toUtf l.key, data := E.toUtf l.data }

/-- The converted line of a record is the line of the converted record. -/
theorem toUtf_text (l : Line) : E.toUtf l.text = (l.convert E).text := by
  have number : E.toUtf (decimal l.type.code) = decimal l.type.code := by
    refine toUtf_low fun c mem => ?_
    obtain ⟨low, high⟩ := l.type.digit_of_mem_code mem
    exact ⟨UInt8.lt_of_lt_of_le (by decide : (0 : UInt8) < 48) low,
      UInt8.lt_of_le_of_lt high (by decide : (57 : UInt8) < 64)⟩
  rw [Line.text, E.toUtf_cut _ _ _ (by decide) (by decide),
    E.toUtf_cut _ _ _ (by decide) (by decide), E.toUtf_cut _ _ _ (by decide) (by decide), number,
    E.toUtf_nil]
  rfl

theorem Line.text_length_pos (l : Line) : 0 < l.text.length := by
  rw [Line.text, List.length_append, List.length_cons]
  omega

/-- The lines that are sent: each of the lines converted, some times over. -/
def repeated (E : SystemEncoding) (sent : List (Line × Nat)) : List Line :=
  sent.flatMap fun s => List.replicate s.2 (s.1.convert E)

/-- What the lines of a call send: each of them converted, some times over. -/
theorem sendLines_eq {ls : List Line} (fits : ∀ l ∈ ls, l.text.length < 10000) :
    ∃ sent : List (Line × Nat), sent.map Prod.fst = ls ∧
      sendLines E ls = some ((repeated E sent).map Line.text).flatten ∧
      ∀ s ∈ sent, 0 < s.2 ∧ (s.2 = 1 ↔ s.1.text.length ≤ (E.toUtf s.1.text).length) := by
  induction ls with
  | nil => exact ⟨[], rfl, rfl, by simp⟩
  | cons l ls ih =>
    obtain ⟨sent, lines, text, times⟩ := ih fun l' mem => fits l' (.tail _ mem)
    have some_bytes : 0 < (E.toUtf l.text).length := by
      rw [toUtf_text]
      exact (l.convert E).text_length_pos
    obtain ⟨m, loop, once⟩ := pipeLoop_eq some_bytes l.text_length_pos (Nat.le_refl _)
    refine ⟨(l, m) :: sent, by rw [List.map_cons, lines], ?_, ?_⟩
    · have fit : ¬ 10000 ≤ l.text.length := by
        have := fits l List.mem_cons_self
        omega
      rw [sendLines, Paf_Pipe_Write, if_neg fit, loop, text, toUtf_text]
      simp [repeated]
    · intro s mem
      rcases List.mem_cons.mp mem with rfl | mem
      · exact once
      · exact times s mem

theorem fits_of_sendLines {ls : List Line} {text : Text} (h : sendLines E ls = some text) :
    ∀ l ∈ ls, l.text.length < 10000 := by
  induction ls generalizing text with
  | nil => simp
  | cons l ls ih =>
    obtain ⟨first, sent, h⟩ := Option.bind_eq_some_iff.mp h
    obtain ⟨rest, later, rfl⟩ := Option.map_eq_some_iff.mp h
    intro l' mem
    rcases List.mem_cons.mp mem with rfl | mem
    · rw [Paf_Pipe_Write] at sent
      split at sent
      · cases sent
      · omega
    · exact ih later l' mem

theorem length_repeated_cons (s : Line × Nat) (sent : List (Line × Nat)) :
    (repeated E (s :: sent)).length = s.2 + (repeated E sent).length := by
  simp [repeated]

theorem length_le_repeated {sent : List (Line × Nat)} (times : ∀ s ∈ sent, 0 < s.2) :
    sent.length ≤ (repeated E sent).length := by
  induction sent with
  | nil => exact Nat.zero_le _
  | cons s sent ih =>
    have first := times s List.mem_cons_self
    have rest := ih fun s mem => times s (.tail _ mem)
    rw [length_repeated_cons, List.length_cons]
    omega

/-- Lines that are all sent at least once, and no more often than there are
lines, are sent once each. -/
theorem once_of_length {sent : List (Line × Nat)} (times : ∀ s ∈ sent, 0 < s.2)
    (same : (repeated E sent).length = sent.length) : ∀ s ∈ sent, s.2 = 1 := by
  induction sent with
  | nil => simp
  | cons s sent ih =>
    have first := times s List.mem_cons_self
    have times' : ∀ s ∈ sent, 0 < s.2 := fun s mem => times s (.tail _ mem)
    have rest := length_le_repeated (E := E) times'
    rw [length_repeated_cons, List.length_cons] at same
    intro s' mem
    rcases List.mem_cons.mp mem with rfl | mem
    · omega
    · exact ih times' (by omega) s' mem

theorem repeated_once {sent : List (Line × Nat)} (once : ∀ s ∈ sent, s.2 = 1) :
    repeated E sent = (sent.map Prod.fst).map (Line.convert E) := by
  induction sent with
  | nil => rfl
  | cons s sent ih =>
    have first := once s List.mem_cons_self
    have rest := ih fun s mem => once s (.tail _ mem)
    rw [repeated] at rest ⊢
    rw [List.flatMap_cons, rest, first]
    rfl

end Send

/-! ### What is decoded -/

section Decode

variable {E : SystemEncoding} {o : Options} {p : Put} {rest : Text}

/-- The request of a line. -/
def Line.request (l : Line) : Request := .insert l.type.code l.key (storedData l.type.code l.data)

theorem dbimp_lines {ls : List Line} (framed : ∀ l ∈ ls, Framed l.key l.data)
    (known : ∀ l ∈ ls, l.type ≠ PAF_CROSS_REF_CPP) :
    dbimp ((ls.map Line.text).flatten ++ rest) = ls.map Line.request ++ dbimp rest := by
  induction ls with
  | nil => rfl
  | cons l ls ih =>
    rw [List.map_cons, List.flatten_cons, List.append_assoc, Line.text,
      dbimp_line (framed l List.mem_cons_self) (known l List.mem_cons_self),
      ih (fun l' mem => framed l' (.tail _ mem)) fun l' mem => known l' (.tail _ mem)]
    rfl

theorem request_convert (l : Line) :
    (l.convert E).request = .insert l.type.code (E.toUtf l.key) (E.toUtf l.data) := by
  have stored : storedData l.type.code (E.toUtf l.data) = E.toUtf l.data := by
    unfold storedData
    split
    · rfl
    · exact unescape_eq_self (E.escape_notMem _)
  simp only [Line.request, Line.convert, stored]

/-! ### Newlines in place -/

theorem escapeNewlines_eq_self {s : Text} (h : NEWLINE ∉ s) : escapeNewlines s = s := by
  refine (List.map_congr_left fun c mem => if_neg ?_).trans (List.map_id s)
  rintro rfl
  exact h mem

theorem symbolLine_escape {a : SymbolArgs} {symbol_name file_name : Text}
    (key : NEWLINE ∉ (symbolLine o id a symbol_name file_name).key)
    (data : NEWLINE ∉ (symbolLine o id a symbol_name file_name).data) :
    escapeNewlines symbol_name = symbol_name ∧
      escapeNewlines (a.commentText o) = a.commentText o := by
  refine ⟨escapeNewlines_eq_self fun mem => key ?_, escapeNewlines_eq_self fun mem => data ?_⟩
  · exact mem_joinFields (s := symbol_name) (by simp) mem
  · refine mem_joinFields (s := inBraces (a.commentText o)) (by simp) ?_
    simp [inBraces, mem]

/-- Without newlines in the records there is nothing to escape. -/
theorem pipeLines_escape (h : ∀ l ∈ p.pipeLines o id, NEWLINE ∉ l.key ∧ NEWLINE ∉ l.data) :
    p.pipeLines o escapeNewlines = p.pipeLines o id := by
  cases p with
  | file a => rfl
  | crossRef a => rfl
  | symbol a =>
    cases file : a.file_name with
    | none => simp only [Put.pipeLines, put_symbol, file]
    | some file_name =>
      cases symbol : a.symbol_name with
      | none => simp only [Put.pipeLines, put_symbol, file, symbol]
      | some symbol_name =>
        simp only [Put.pipeLines, put_symbol, file, symbol] at h ⊢
        by_cases refused : symbol_name = [] ∨ (a.scope = none ∧ needsScope a.sym_type)
        · simp only [if_pos refused]
        · simp only [if_neg refused] at h ⊢
          obtain ⟨key, data⟩ := h _ List.mem_cons_self
          obtain ⟨name, comment⟩ := symbolLine_escape key data
          simp only [symbolLine, fileSymbolLine, name, comment, id]

/-- References are written under their own type. -/
theorem crossRefLines_type {ls : List Line} (h : p.crossRefLines o = some ls) :
    ∀ l ∈ ls, l.type = PAF_CROSS_REF := by
  cases p with
  | crossRef a =>
    simp only [Put.crossRefLines, put_cross_ref] at h
    split_ifs at h <;> cases h <;> simp
  | _ =>
    cases h
    simp

/-! ### One call -/

/-- A clean call is undone by the importer, whatever follows. -/
theorem write_of_clean (clean : p.Clean E o) :
    ∃ w, p.write E o = some w ∧ (∀ rest, dbimp (w.pipe ++ rest) = p.meant E o ++ dbimp rest) ∧
      ∀ rest, dbimp (w.crossRefs ++ rest) = p.meantCrossRefs o ++ dbimp rest := by
  have lines : p.pipeLines o escapeNewlines = p.pipeLines o id := by
    refine pipeLines_escape fun l mem => ⟨fun newline => ?_, fun newline => ?_⟩
    · exact (clean.framed l mem).key_newline (toUtf_newline_mem newline)
    · exact (clean.framed l mem).data_newline (toUtf_newline_mem newline)
  obtain ⟨sent, same, text, times⟩ := sendLines_eq (E := E) clean.fits
  have once : ∀ s ∈ sent, s.2 = 1 := fun s mem =>
    (times s mem).2.mpr (clean.not_shorter s.1 (by rw [← same]; exact List.mem_map_of_mem mem))
  rw [repeated_once once, same] at text
  obtain ⟨refs, written⟩ := Option.ne_none_iff_exists'.mp clean.lineno
  have ref_type := crossRefLines_type written
  have sends : p.write E o = some
      ⟨(((p.pipeLines o id).map (Line.convert E)).map Line.text).flatten,
        (refs.map Line.text).flatten⟩ := by
    rw [Put.write, lines, text, written]
    rfl
  refine ⟨_, sends, fun rest => ?_, fun rest => ?_⟩
  · rw [dbimp_lines, List.map_map, Put.meant]
    · congr 1
      exact List.map_congr_left fun l _ => request_convert l
    · intro l mem
      obtain ⟨l', mem', rfl⟩ := List.mem_map.mp mem
      exact clean.framed l' mem'
    · intro l mem
      obtain ⟨l', mem', rfl⟩ := List.mem_map.mp mem
      exact clean.known l' mem'
  · rw [dbimp_lines (clean.crossRefs refs written), Put.meantCrossRefs, written, Option.getD_some]
    · congr 1
      refine List.map_congr_left fun l mem => ?_
      rw [Line.request, storedData, if_pos (.inr (by rw [ref_type l mem]))]
    · intro l mem
      rw [ref_type l mem]
      decide

theorem decodes_single :
    Decodes E o [p] ↔ ∃ w, p.write E o = some w ∧ dbimp w.pipe = p.meant E o ∧
      dbimp w.crossRefs = p.meantCrossRefs o := by
  simp only [Decodes, writeAll, List.flatMap_cons, List.flatMap_nil, List.append_nil]
  constructor
  · rintro ⟨w, written, pipe, refs⟩
    obtain ⟨w', first, same⟩ := Option.bind_eq_some_iff.mp written
    cases same
    simp only [List.append_nil] at pipe refs
    exact ⟨w', first, pipe, refs⟩
  · rintro ⟨w, written, pipe, refs⟩
    exact ⟨⟨w.pipe ++ [], w.crossRefs ++ []⟩, by rw [written]; rfl, by simpa using pipe,
      by simpa using refs⟩

/-- No escape byte goes out on the pipe. -/
theorem escape_notMem_texts {ls : List Line} :
    ESCAPE ∉ ((ls.map (Line.convert E)).map Line.text).flatten := by
  intro mem
  obtain ⟨text, texts, escape⟩ := List.mem_flatten.mp mem
  obtain ⟨l', mem', rfl⟩ := List.mem_map.mp texts
  obtain ⟨l, -, rfl⟩ := List.mem_map.mp mem'
  rw [← toUtf_text] at escape
  exact E.escape_notMem _ escape

/-- A call that the importer undoes is clean. -/
theorem clean_of_decodes (h : Decodes E o [p]) : p.Clean E o := by
  obtain ⟨w, written, pipe, refs⟩ := decodes_single.mp h
  obtain ⟨text, sends, rest⟩ := Option.bind_eq_some_iff.mp written
  obtain ⟨ls, cross, rfl⟩ := Option.map_eq_some_iff.mp rest
  simp only at pipe refs
  obtain ⟨sent, same, text', times⟩ := sendLines_eq (E := E) (fits_of_sendLines sends)
  rw [sends, Option.some.injEq] at text'
  subst text'
  have no_escape : ESCAPE ∉ ((repeated E sent).map Line.text).flatten := by
    have repeats : repeated E sent =
        (sent.flatMap fun s => List.replicate s.2 s.1).map (Line.convert E) := by
      simp [repeated, List.map_flatMap]
    rw [repeats]
    exact escape_notMem_texts
  -- what was decoded is framed, so nothing was escaped
  have framed : ∀ l ∈ p.pipeLines o id,
      (l.type.code : Int) ≠ PAF_CROSS_REF_CPP.code ∧ Framed (E.toUtf l.key) (E.toUtf l.data) := by
    intro l mem
    have decoded : .insert l.type.code (E.toUtf l.key) (E.toUtf l.data) ∈
        dbimp ((repeated E sent).map Line.text).flatten := by
      rw [pipe]
      exact List.mem_map.mpr ⟨l, mem, rfl⟩
    exact mem_dbimp decoded (.inr (.inr no_escape))
  have known : ∀ l ∈ p.pipeLines o id, l.type ≠ PAF_CROSS_REF_CPP := by
    intro l mem same
    exact (framed l mem).1 (by rw [same])
  have lines : p.pipeLines o escapeNewlines = p.pipeLines o id := by
    refine pipeLines_escape fun l mem => ⟨fun newline => ?_, fun newline => ?_⟩
    · exact (framed l mem).2.key_newline (toUtf_newline_mem newline)
    · exact (framed l mem).2.data_newline (toUtf_newline_mem newline)
  rw [lines] at same sends
  -- the records are as many as the lines, so each line was sent once
  have sent_mem : ∀ l ∈ repeated E sent, ∃ l' ∈ p.pipeLines o id, l = l'.convert E := by
    intro l mem
    obtain ⟨s, mem_s, mem_l⟩ := List.mem_flatMap.mp mem
    refine ⟨s.1, ?_, (List.mem_replicate.mp mem_l).2⟩
    rw [← same]
    exact List.mem_map_of_mem mem_s
  have count : (repeated E sent).length = sent.length := by
    have framed' : ∀ l ∈ repeated E sent, Framed l.key l.data := by
      intro l mem
      obtain ⟨l', mem', rfl⟩ := sent_mem l mem
      exact (framed l' mem').2
    have known' : ∀ l ∈ repeated E sent, l.type ≠ PAF_CROSS_REF_CPP := by
      intro l mem
      obtain ⟨l', mem', rfl⟩ := sent_mem l mem
      exact known l' mem'
    have decoded : dbimp (((repeated E sent).map Line.text).flatten ++ []) = _ :=
      dbimp_lines framed' known'
    rw [List.append_nil, pipe] at decoded
    have lengths := congrArg List.length decoded
    simp only [Put.meant, List.length_map, ← same, List.length_append] at lengths
    simpa [dbimp, readLines, untilPanic] using lengths.symm
  have once := once_of_length (fun s mem => (times s mem).1) count
  refine ⟨fun l mem => (framed l mem).2, known, ?_, ?_, ?_, ?_⟩
  · exact fits_of_sendLines sends
  · intro l mem
    rw [← same] at mem
    obtain ⟨s, mem_s, rfl⟩ := List.mem_map.mp mem
    exact (times s mem_s).2.mp (once s mem_s)
  · rw [cross]
    simp
  · intro ls' same' l mem
    rw [cross] at same'
    cases same'
    have decoded : .insert l.type.code l.key l.data ∈ dbimp (ls.map Line.text).flatten := by
      rw [refs, Put.meantCrossRefs, cross, Option.getD_some]
      exact List.mem_map.mpr ⟨l, mem, rfl⟩
    exact (mem_dbimp decoded (.inr (.inl (by rw [crossRefLines_type cross l mem])))).2

/-! ### Every sequence of calls -/

theorem decodes_of_clean {ps : List Put} (clean : ∀ p ∈ ps, p.Clean E o) : Decodes E o ps := by
  induction ps with
  | nil => exact ⟨_, rfl, rfl, rfl⟩
  | cons p ps ih =>
    obtain ⟨w, written, pipe, refs⟩ := write_of_clean (clean p List.mem_cons_self)
    obtain ⟨ws, written', pipe', refs'⟩ := ih fun q mem => clean q (.tail _ mem)
    refine ⟨⟨w.pipe ++ ws.pipe, w.crossRefs ++ ws.crossRefs⟩, ?_, ?_, ?_⟩
    · rw [writeAll, written, Option.bind_some, written']
      rfl
    · rw [pipe, pipe', List.flatMap_cons]
    · rw [refs, refs', List.flatMap_cons]

/-- Every call comes back as it was meant, and so does the whole sequence. -/
def RoundTrips (E : SystemEncoding) (o : Options) (ps : List Put) : Prop :=
  (∀ p ∈ ps, Decodes E o [p]) ∧ Decodes E o ps

end Decode

/-! ### A comment of two lines -/

/-- The bytes of a character of ISO 8859-1. -/
def latin1 (c : UInt8) : Text := if c < 128 then [c] else [192 + c / 64, 128 + c % 64]

theorem latin1_cut (a b : Text) (c : UInt8) (_ : 0 < c) (low : c < 64) :
    (a ++ c :: b).flatMap latin1 = a.flatMap latin1 ++ c :: b.flatMap latin1 := by
  have ascii : c < 128 := UInt8.lt_trans low (by decide)
  have one : latin1 c = [c] := if_pos ascii
  rw [List.flatMap_append, List.flatMap_cons, one]
  rfl

theorem escape_notMem_latin1 (s : Text) : ESCAPE ∉ s.flatMap latin1 := by
  intro mem
  obtain ⟨c, -, here⟩ := List.mem_flatMap.mp mem
  unfold latin1 at here
  have small := c.toNat_lt
  split at here
  case isTrue low =>
    rw [List.mem_singleton] at here
    rw [← here] at low
    exact absurd low (by decide)
  case isFalse =>
    simp only [ESCAPE, List.mem_cons, List.not_mem_nil, or_false, ← UInt8.toNat_inj,
      UInt8.toNat_add, UInt8.toNat_div, UInt8.toNat_mod, UInt8.reduceToNat] at here
    omega

/-- ISO 8859-1, which is the system encoding when the locale names none. -/
def iso8859_1 : SystemEncoding where
  toUtf := List.flatMap latin1
  toUtf_nil := rfl
  toUtf_cut := latin1_cut
  escape_notMem := escape_notMem_latin1

def commentOptions : Options where
  comment_database := true
  report_local_vars := false
  cross_ref_fp := true

/-- A function with a comment of two lines. -/
def twoLineComment : SymbolArgs where
  sym_type := PAF_FUNC_DEF
  scope_name := none
  symbol_name := some (ascii "main")
  file_name := some (ascii "a.c")
  start_lineno := 3
  start_colpos := 4
  end_lineno := 9
  end_colpos := 1
  attr := 0
  ret := some (ascii "int")
  arg_types := none
  args := none
  comment := some (ascii "one\ntwo")
  high_start_lineno := 0
  high_start_colpos := 0
  high_end_lineno := 0
  high_end_colpos := 0

end SourceNavigator.Db
