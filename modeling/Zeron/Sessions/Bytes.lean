import Zeron.Transition.Run
import Mathlib.Data.List.Induction
import Mathlib.Tactic.Ring.RingNF

/-!
# The bytes of a journal

A line of the journal is a number and an event in JSON.  A write that fails leaves any
prefix of its bytes behind, and the handle stays open until the chat is evicted or the
process ends.  The encoder, the parser and the test for UTF-8 are parameters.
-/

namespace Zeron.Sessions.Bytes

open Transition

def newline : UInt8 := 10

/-- `serde_json` for the lines, and the UTF-8 test of `lines()`. -/
structure Codec (ε : Type) where
  encode : Nat × ε → List UInt8
  parse : List UInt8 → Option (Nat × ε)
  valid : List UInt8 → Bool

/-- A line is one JSON object on a line: it is read back, no proper prefix of it is JSON, and
it is valid text without a line break. -/
structure Codec.Lawful {ε : Type} (codec : Codec ε) : Prop where
  parse_encode : ∀ line, codec.parse (codec.encode line) = some line
  parse_prefix : ∀ line torn, torn <+: codec.encode line → torn ≠ codec.encode line →
    codec.parse torn = none
  unbroken : ∀ line, newline ∉ codec.encode line
  valid_encode : ∀ line, codec.valid (codec.encode line) = true
  valid_nil : codec.valid [] = true

/-- The first line, and the others. -/
def split : List UInt8 → List UInt8 × List (List UInt8)
  | [] => ([], [])
  | byte :: bytes =>
      if byte = newline then ([], (split bytes).1 :: (split bytes).2)
      else (byte :: (split bytes).1, (split bytes).2)

/-- The pieces between line breaks; the last one is what follows the last break. -/
def linesOf (bytes : List UInt8) : List (List UInt8) :=
  (split bytes).1 :: (split bytes).2

variable {ε : Type} (codec : Codec ε)

/-- The last line of some bytes that parses. -/
def lastParsed (bytes : List UInt8) : Option (Nat × ε) :=
  (linesOf bytes).reverse.findSome? codec.parse

/-- The bytes after the first line break. -/
def afterBreak (bytes : List UInt8) : List UInt8 :=
  (bytes.dropWhile fun byte => decide (byte ≠ newline)).tail

/-- The loop of `read_tail`: a window at the end of the file, whose first line counts only if
the window is the whole file, is doubled until it holds a line that parses. -/
def readWindow (file : List UInt8) (window : Nat) : Option (Nat × ε) :=
  let complete :=
    if file.length ≤ window then file else afterBreak (file.drop (file.length - window))
  match lastParsed codec complete with
  | some line => some line
  | none =>
      if window = 0 ∨ file.length ≤ window then none
      else readWindow file (min (window * 2) file.length)
termination_by file.length - window

/-- `read_tail`: the last record, and whether the file ends within a line. -/
def readTail (file : List UInt8) : Option (Nat × ε) × Bool :=
  if file = [] then (none, false)
  else (readWindow codec file (min file.length (64 * 1024)), file.getLast? != some newline)

/-- `read_lines_after`: a line that is not text fails, and one that is not JSON is skipped. -/
def readLinesAfter (file : List UInt8) (afterSeq : Nat) : Option (List (Nat × ε)) :=
  if (linesOf file).all codec.valid then
    some (((linesOf file).filterMap codec.parse).filter fun line => decide (afterSeq < line.1))
  else none

def replay (file : List UInt8) (afterSeq : Nat) : Option (List (Nat × ε)) :=
  let lastSeq := ((readTail codec file).1.map Prod.fst).getD 0
  readLinesAfter codec file (if lastSeq < afterSeq then 0 else afterSeq)

def lastEvent (file : List UInt8) : Option (Nat × ε) :=
  (readTail codec file).1

/-- `ChatJournal`. -/
structure Handle where
  nextSeq : Nat
  needsNewline : Bool

/-- The file and the open handle.  The last three fields are history only. -/
structure Journal (ε : Type) where
  file : List UInt8
  handle : Option Handle
  /-- A failed write has left bytes behind the back of the handle. -/
  dirty : Bool
  /-- What was appended, with the numbers that `append` returned. -/
  acknowledged : List (Nat × ε)
  /-- The complete lines of appends that failed. -/
  landed : List (Nat × ε)

inductive Event (ε : Type) where
  /-- An append, which fails after a number of bytes if one is given. -/
  | append (event : ε) (written : Option Nat)
  /-- The handle is dropped: another chat takes its place, or the process ends. -/
  | evict

namespace Journal

def init : Journal ε where
  file := []
  handle := none
  dirty := false
  acknowledged := []
  landed := []

/-- The handle that `append` works with; `scan_tail` reads it from the file. -/
def opened (journal : Journal ε) : Handle :=
  journal.handle.getD
    { nextSeq := ((readTail codec journal.file).1.map fun line => line.1 + 1).getD 1
      needsNewline := (readTail codec journal.file).2 }

/-- The break that closes a torn line. -/
def opening (journal : Journal ε) : List UInt8 :=
  if (journal.opened codec).needsNewline then [newline] else []

/-- The line of an event. -/
def line (journal : Journal ε) (event : ε) : Nat × ε :=
  ((journal.opened codec).nextSeq, event)

/-- `buf`. -/
def buffer (journal : Journal ε) (event : ε) : List UInt8 :=
  journal.opening codec ++ (codec.encode (journal.line codec event) ++ [newline])

def step (journal : Journal ε) : Event ε → Option (Journal ε)
  | .append event none =>
      let line := journal.line codec event
      some { journal with
        file := journal.file ++ journal.buffer codec event
        handle := some { nextSeq := line.1 + 1, needsNewline := false }
        acknowledged := journal.acknowledged ++ [line] }
  | .append event (some written) =>
      let line := journal.line codec event
      let complete := decide
        ((journal.opening codec).length + (codec.encode line).length ≤ written)
      some { journal with
        file := journal.file ++ (journal.buffer codec event).take written
        handle := some (journal.opened codec)
        dirty := journal.dirty || complete ||
          (!(journal.opened codec).needsNewline && decide (0 < written))
        landed := if complete then journal.landed ++ [line] else journal.landed }
  | .evict => some { journal with handle := none, dirty := false }

/-- What a failed append has written of its line is text, and nothing is written through a
handle that a failed write has left behind. -/
def Careful (journal : Journal ε) : Event ε → Prop
  | .append event written =>
      (journal.dirty = false ∨ written = some 0) ∧ ∀ count, written = some count →
        codec.valid ((codec.encode (journal.line codec event)).take
          (count - (journal.opening codec).length)) = true
  | .evict => True

/-- A replay succeeds with everything that was acknowledged, under the numbers that `append`
returned and in order, and otherwise only with complete lines; the last event is its last
element, and the next number is above all, but for a line that has landed behind the handle. -/
def LosesNothing (journal : Journal ε) : Prop :=
  ∃ replayed, replay codec journal.file 0 = some replayed ∧
    replayed.Pairwise (fun first second => first.1 < second.1) ∧
      journal.acknowledged.Sublist replayed ∧
        (∀ line ∈ replayed, line ∈ journal.acknowledged ∨ line ∈ journal.landed) ∧
          lastEvent codec journal.file = replayed.getLast? ∧
            ∀ line ∈ replayed, line ∈ journal.acknowledged ∨ journal.dirty = false →
              line.1 < (journal.opened codec).nextSeq

end Journal

/-! ## Lines -/

section Lines

variable {codec} {file torn : List UInt8}

theorem linesOf_break (bytes rest : List UInt8) :
    linesOf (bytes ++ newline :: rest) = linesOf bytes ++ linesOf rest := by
  induction bytes with
  | nil => simp [linesOf, split]
  | cons byte bytes ih =>
      simp only [linesOf, List.cons_append, List.cons.injEq] at ih
      rw [List.cons_append, linesOf, linesOf, split, split]
      split
      · simp [linesOf, ih]
      · simp [linesOf, ih]

theorem linesOf_unbroken (unbroken : newline ∉ torn) : linesOf torn = [torn] := by
  induction torn with
  | nil => rfl
  | cons byte torn ih =>
      have apart : byte ≠ newline := fun same => unbroken (same ▸ List.mem_cons_self)
      have rest := ih fun listed => unbroken (List.mem_cons_of_mem _ listed)
      simp only [linesOf, List.cons.injEq] at rest
      simp [linesOf, split, apart, rest]

/-- The file ends with a line. -/
def Ready (file : List UInt8) : Prop :=
  file = [] ∨ ∃ before, file = before ++ [newline]

/-- Text after complete lines is a line of its own. -/
theorem Ready.linesOf_append (ready : Ready file) :
    ∃ lines, ∀ torn, newline ∉ torn → linesOf (file ++ torn) = lines ++ [torn] := by
  rcases ready with rfl | ⟨before, rfl⟩
  · exact ⟨[], fun torn unbroken => linesOf_unbroken unbroken⟩
  · refine ⟨linesOf before, fun torn unbroken => ?_⟩
    rw [List.append_assoc, List.singleton_append, linesOf_break, linesOf_unbroken unbroken]

theorem ready_break (file : List UInt8) : Ready (file ++ [newline]) :=
  .inr ⟨file, rfl⟩

theorem ready_of_getLast? (last : (file.getLast? != some newline) = false) : Ready file := by
  rcases List.eq_nil_or_concat file with rfl | ⟨before, byte, rfl⟩
  · exact .inl rfl
  · rw [List.concat_eq_append] at last ⊢
    have same : byte = newline := by simpa using last
    exact same ▸ ready_break before

/-- The records of a file. -/
def records (codec : Codec ε) (file : List UInt8) : List (Nat × ε) :=
  (linesOf file).filterMap codec.parse

theorem lastParsed_eq (file : List UInt8) :
    lastParsed codec file = (records codec file).getLast? := by
  unfold lastParsed records
  induction linesOf file using List.reverseRecOn with
  | nil => rfl
  | append_singleton lines line ih =>
      cases parsed : codec.parse line <;> simp [parsed]

theorem eq_append_break {bytes : List UInt8} (some_line : afterBreak bytes ≠ []) :
    ∃ first, bytes = first ++ newline :: afterBreak bytes := by
  induction bytes with
  | nil => exact absurd rfl some_line
  | cons byte bytes ih =>
      by_cases same : byte = newline
      · exact ⟨[], by simp [afterBreak, same]⟩
      · have rest : afterBreak (byte :: bytes) = afterBreak bytes := by simp [afterBreak, same]
        rw [rest] at some_line ⊢
        rcases ih some_line with ⟨first, parts⟩
        exact ⟨byte :: first, congrArg _ parts⟩

theorem records_break (bytes rest : List UInt8) :
    records codec (bytes ++ newline :: rest) = records codec bytes ++ records codec rest := by
  rw [records, linesOf_break, List.filterMap_append]
  rfl

theorem ready_of_readTail (closed : (readTail codec file).2 = false) : Ready file := by
  unfold readTail at closed
  split at closed
  · rename_i empty
    exact .inl empty
  · exact ready_of_getLast? closed

end Lines

/-! ## Reading -/

section Reading

variable {codec} (lawful : codec.Lawful) {file : List UInt8}
include lawful

theorem Codec.Lawful.encode_ne_nil (line : Nat × ε) : codec.encode line ≠ [] := by
  intro empty
  have some_line := lawful.parse_encode line
  rcases line with ⟨seq, event⟩
  -- a longer line begins with the empty text too
  have none := lawful.parse_prefix (seq + 1, event) [] List.nil_prefix
  by_cases next : codec.encode (seq + 1, event) = []
  · have other := lawful.parse_encode (seq + 1, event)
    rw [empty] at some_line
    rw [next, some_line] at other
    exact absurd (congrArg Prod.fst (Option.some.inj other)) (by simp)
  · rw [empty, none (Ne.symm next)] at some_line
    cases some_line

/-- The lines stay text if the torn one is. -/
theorem valid_append_torn (ready : Ready file) (line : Nat × ε) {count : Nat}
    (valid : ∀ text ∈ linesOf file, codec.valid text = true)
    (torn : codec.valid ((codec.encode line).take count) = true) :
    ∀ text ∈ linesOf (file ++ (codec.encode line ++ [newline]).take count),
      codec.valid text = true := by
  rcases ready.linesOf_append with ⟨lines, pieces⟩
  have before : ∀ text ∈ lines, codec.valid text = true := by
    have own := pieces [] (by simp)
    rw [List.append_nil] at own
    intro text listed
    exact valid text (own ▸ List.mem_append_left _ listed)
  have unbroken : newline ∉ (codec.encode line).take count :=
    fun listed => lawful.unbroken line (List.mem_of_mem_take listed)
  have added : ∀ text ∈ linesOf (file ++ (codec.encode line).take count),
      codec.valid text = true := by
    rw [pieces _ unbroken]
    intro text listed
    rcases List.mem_append.mp listed with listed | new
    · exact before text listed
    · exact List.mem_singleton.mp new ▸ torn
  rw [List.take_append, ← List.append_assoc]
  rcases Nat.eq_zero_or_pos (count - (codec.encode line).length) with none | closed
  · rwa [none, List.take_zero, List.append_nil]
  · rw [List.take_of_length_le (l := [newline]) closed, linesOf_break]
    intro text listed
    rcases List.mem_append.mp listed with listed | new
    · exact added text listed
    · cases List.mem_singleton.mp new
      exact lawful.valid_nil

theorem Codec.Lawful.parse_nil : codec.parse [] = none := by
  cases parsed : codec.parse [] with
  | none => rfl
  | some line =>
      have none := lawful.parse_prefix line [] List.nil_prefix (lawful.encode_ne_nil line).symm
      rw [← parsed, none]

/-- A window at the end finds the last line of the file, once it finds any. -/
theorem readWindow_eq {window : Nat} (some_byte : 0 < window) :
    readWindow codec file window = (records codec file).getLast? := by
  -- on what the window does not reach yet
  induction reach : file.length - window using Nat.strong_induction_on generalizing window with
  | _ reach ih =>
      rw [readWindow]
      by_cases whole : file.length ≤ window
      · simp only [if_pos whole, lastParsed_eq]
        cases (records codec file).getLast? <;> simp [whole]
      · simp only [if_neg whole]
        cases found : lastParsed codec (afterBreak (file.drop (file.length - window))) with
        | none =>
            rw [if_neg (by omega)]
            exact ih _ (by omega) (by omega) rfl
        | some line =>
            have some_line : afterBreak (file.drop (file.length - window)) ≠ [] := by
              intro empty
              rw [empty, lastParsed_eq] at found
              simp [records, linesOf, split, lawful.parse_nil] at found
            rcases eq_append_break some_line with ⟨first, parts⟩
            have cut : file = (file.take (file.length - window) ++ first) ++
                newline :: afterBreak (file.drop (file.length - window)) := by
              rw [List.append_assoc, ← parts, List.take_append_drop]
            rw [cut, records_break, List.getLast?_append, ← lastParsed_eq, found]
            rfl

theorem records_nil : records codec [] = [] := by
  simp [records, linesOf, split, lawful.parse_nil]

theorem readTail_eq (file : List UInt8) :
    (readTail codec file).1 = (records codec file).getLast? := by
  unfold readTail
  split
  · rename_i empty
    rw [empty, records_nil lawful]
    rfl
  · rename_i some_byte
    have long := List.length_pos_iff.mpr some_byte
    exact readWindow_eq lawful (by omega)

/-- A line break adds an empty line only. -/
theorem records_append_break (file : List UInt8) :
    records codec (file ++ [newline]) = records codec file := by
  rw [records_break, records_nil lawful, List.append_nil]

/-- A torn piece of a line after complete ones adds nothing, and the whole of it is read. -/
theorem records_append_torn (ready : Ready file) (line : Nat × ε) (count : Nat) :
    records codec (file ++ (codec.encode line ++ [newline]).take count) =
      records codec file ++ if (codec.encode line).length ≤ count then [line] else [] := by
  rcases ready.linesOf_append with ⟨lines, pieces⟩
  have none := lawful.parse_nil
  have before : records codec file = lines.filterMap codec.parse := by
    have own := pieces [] (by simp)
    rw [List.append_nil] at own
    simp [records, own, none]
  have whole : records codec (file ++ codec.encode line) = records codec file ++ [line] := by
    rw [before, records, pieces _ (lawful.unbroken line)]
    simp [lawful.parse_encode]
  rw [List.take_append]
  by_cases complete : (codec.encode line).length ≤ count
  · rw [if_pos complete, List.take_of_length_le complete]
    by_cases closed : count = (codec.encode line).length
    · rw [closed, Nat.sub_self, List.take_zero, List.append_nil, whole]
    · rw [List.take_of_length_le (by simp; omega), ← List.append_assoc,
        records_append_break lawful, whole]
  · rw [if_neg complete, Nat.sub_eq_zero_of_le (by omega), List.take_zero, List.append_nil]
    have unbroken : newline ∉ (codec.encode line).take count :=
      fun listed => lawful.unbroken line (List.mem_of_mem_take listed)
    have proper : (codec.encode line).take count ≠ codec.encode line := by
      intro same
      have lengths := congrArg List.length same
      rw [List.length_take] at lengths
      omega
    have torn := lawful.parse_prefix line _ (List.take_prefix _ _) proper
    rw [before, records, pieces _ unbroken]
    simp [torn]

end Reading

/-! ## Runs -/

namespace Journal

variable {codec} {journal next : Journal ε}

/-- The records of the file are what was acknowledged and what has landed; a handle that no
failed write has left behind goes on after them. -/
structure Kept (codec : Codec ε) (journal : Journal ε) : Prop where
  valid : ∀ text ∈ linesOf journal.file, codec.valid text = true
  increasing : (records codec journal.file).Pairwise fun first second => first.1 < second.1
  positive : ∀ line ∈ records codec journal.file, 0 < line.1
  acknowledged : journal.acknowledged.Sublist (records codec journal.file)
  known : ∀ line ∈ records codec journal.file,
    line ∈ journal.acknowledged ∨ line ∈ journal.landed
  handle : ∀ handle, journal.handle = some handle → journal.dirty = false →
    (handle.needsNewline = false → Ready journal.file) ∧ 0 < handle.nextSeq ∧
      ∀ line ∈ records codec journal.file, line.1 < handle.nextSeq
  numbered : ∀ handle, journal.handle = some handle →
    ∀ line ∈ journal.acknowledged, line.1 < handle.nextSeq

theorem opening_of_true (needed : (journal.opened codec).needsNewline = true) :
    journal.opening codec = [newline] :=
  if_pos needed

theorem opening_of_false (closed : (journal.opened codec).needsNewline = false) :
    journal.opening codec = [] :=
  if_neg (by simp [closed])

variable (lawful : codec.Lawful)
include lawful

section

variable (kept : journal.Kept codec)
include kept

/-- The number that `scan_tail` reads is above the records. -/
theorem Kept.scanned {line : Nat × ε} (listed : line ∈ records codec journal.file) :
    line.1 < ((readTail codec journal.file).1.map fun line => line.1 + 1).getD 1 := by
  rw [readTail_eq lawful]
  have increasing := kept.increasing
  generalize records codec journal.file = lines at listed increasing
  rcases List.eq_nil_or_concat lines with rfl | ⟨before, last, rfl⟩
  · cases listed
  · rw [List.concat_eq_append] at listed increasing ⊢
    rw [List.getLast?_concat]
    rcases List.mem_append.mp listed with earlier | only
    · exact ((List.pairwise_append.mp increasing).2.2 line earlier last
        List.mem_cons_self).trans (Nat.lt_succ_self _)
    · exact List.mem_singleton.mp only ▸ Nat.lt_succ_self _

/-- A number that was returned is not returned again. -/
theorem Kept.lt_nextSeq :
    ∀ line ∈ journal.acknowledged, line.1 < (journal.opened codec).nextSeq := by
  intro line listed
  unfold Journal.opened
  cases cached : journal.handle with
  | some handle => exact kept.numbered handle cached line listed
  | none => exact kept.scanned lawful (kept.acknowledged.subset listed)

/-- A handle that is read from the file goes on after its records, too. -/
theorem Kept.opened (clean : journal.dirty = false) :
    ((journal.opened codec).needsNewline = false → Ready journal.file) ∧
      0 < (journal.opened codec).nextSeq ∧
        ∀ line ∈ records codec journal.file, line.1 < (journal.opened codec).nextSeq := by
  unfold Journal.opened
  cases cached : journal.handle with
  | some handle => exact kept.handle handle cached clean
  | none =>
      refine ⟨ready_of_readTail, ?_, ?_⟩
      · cases (readTail codec journal.file).1 <;> simp
      · exact fun line listed => kept.scanned lawful listed

/-- What is written comes after complete lines. -/
theorem Kept.ready (clean : journal.dirty = false) :
    Ready (journal.file ++ journal.opening codec) ∧
      records codec (journal.file ++ journal.opening codec) = records codec journal.file ∧
        ∀ text ∈ linesOf (journal.file ++ journal.opening codec), codec.valid text = true := by
  cases needed : (journal.opened codec).needsNewline with
  | false =>
      rw [opening_of_false needed, List.append_nil]
      exact ⟨(kept.opened lawful clean).1 needed, rfl, kept.valid⟩
  | true =>
      rw [opening_of_true needed]
      refine ⟨ready_break _, records_append_break lawful _, ?_⟩
      rw [linesOf_break]
      intro text listed
      rcases List.mem_append.mp listed with listed | new
      · exact kept.valid text listed
      · cases List.mem_singleton.mp new
        exact lawful.valid_nil

/-- Writing a prefix of the buffer adds the line if it is complete, and nothing otherwise. -/
theorem Kept.write (clean : journal.dirty = false) (event : ε) {count : Nat}
    (some_byte : (journal.opening codec).length ≤ count)
    (torn : codec.valid ((codec.encode (journal.line codec event)).take
      (count - (journal.opening codec).length)) = true) :
    records codec (journal.file ++ (journal.buffer codec event).take count) =
        records codec journal.file ++
          (if (journal.opening codec).length + (codec.encode (journal.line codec event)).length ≤
            count then [journal.line codec event] else []) ∧
      ∀ text ∈ linesOf (journal.file ++ (journal.buffer codec event).take count),
        codec.valid text = true := by
  rcases kept.ready lawful clean with ⟨ready, same, valid⟩
  have cut : journal.file ++ (journal.buffer codec event).take count =
      (journal.file ++ journal.opening codec) ++
        (codec.encode (journal.line codec event) ++ [newline]).take
          (count - (journal.opening codec).length) := by
    rw [buffer, List.take_append, List.take_of_length_le some_byte, List.append_assoc]
  rw [cut]
  refine ⟨?_, valid_append_torn lawful ready _ valid torn⟩
  rw [records_append_torn lawful ready]
  congr 1
  exact if_congr (by omega) rfl rfl

theorem Kept.append (clean : journal.dirty = false) {event : ε}
    (stepped : journal.step codec (.append event none) = some next) : next.Kept codec := by
  cases stepped
  have whole : (journal.buffer codec event).take (journal.buffer codec event).length =
      journal.buffer codec event := List.take_length
  have long : (journal.opening codec).length + (codec.encode (journal.line codec event)).length ≤
      (journal.buffer codec event).length := by
    simp only [buffer, List.length_append]
    omega
  have text : codec.valid ((codec.encode (journal.line codec event)).take
      ((journal.buffer codec event).length - (journal.opening codec).length)) = true := by
    rw [List.take_of_length_le (by omega)]
    exact lawful.valid_encode _
  rcases kept.write lawful clean event (by omega) text with ⟨added, valid⟩
  rw [whole, if_pos long] at added
  rw [whole] at valid
  rcases kept.opened lawful clean with ⟨-, positive, above⟩
  constructor
  · exact valid
  · rw [added]
    refine List.pairwise_append.mpr ⟨kept.increasing, List.pairwise_singleton _ _, ?_⟩
    intro line listed last only
    exact List.mem_singleton.mp only ▸ above line listed
  · intro line listed
    rw [added] at listed
    rcases List.mem_append.mp listed with listed | only
    · exact kept.positive line listed
    · exact List.mem_singleton.mp only ▸ positive
  · rw [added]
    exact kept.acknowledged.append (List.Sublist.refl _)
  · intro line listed
    rw [added] at listed
    rcases List.mem_append.mp listed with listed | only
    · exact (kept.known line listed).imp_left (List.mem_append_left _)
    · exact .inl (List.mem_append_right _ only)
  · rintro handle same -
    cases same
    refine ⟨fun _ => ?_, Nat.succ_pos _, ?_⟩
    · refine .inr ⟨journal.file ++
        (journal.opening codec ++ codec.encode (journal.line codec event)), ?_⟩
      simp only [buffer, List.append_assoc]
    · intro line listed
      rw [added] at listed
      rcases List.mem_append.mp listed with listed | only
      · exact (above line listed).trans (Nat.lt_succ_self _)
      · exact List.mem_singleton.mp only ▸ Nat.lt_succ_self _
  · rintro handle same line listed
    cases same
    rcases List.mem_append.mp listed with listed | only
    · exact (kept.lt_nextSeq lawful line listed).trans (Nat.lt_succ_self _)
    · exact List.mem_singleton.mp only ▸ Nat.lt_succ_self _

/-- An append that writes nothing. -/
theorem Kept.fail_early {dirty : Bool} (stays : dirty = false → journal.dirty = false) :
    Kept codec { journal with handle := some (journal.opened codec), dirty } where
  valid := kept.valid
  increasing := kept.increasing
  positive := kept.positive
  acknowledged := kept.acknowledged
  known := kept.known
  handle := by
    rintro handle same clean
    cases same
    exact kept.opened lawful (stays clean)
  numbered := by
    rintro handle same line listed
    cases same
    exact kept.lt_nextSeq lawful line listed

theorem Kept.fail {event : ε} {count : Nat}
    (careful : journal.Careful codec (.append event (some count)))
    (stepped : journal.step codec (.append event (some count)) = some next) :
    next.Kept codec := by
  cases stepped
  rcases careful with ⟨clean, torn⟩
  by_cases early : count = 0
  · have short : ¬((journal.opening codec).length +
        (codec.encode (journal.line codec event)).length ≤ count) := by
      have long := List.length_pos_iff.mpr (lawful.encode_ne_nil (journal.line codec event))
      omega
    rw [early] at short ⊢
    simp only [List.take_zero, List.append_nil, decide_eq_false short]
    exact kept.fail_early lawful (by simp)
  have clean := clean.resolve_right (by simpa using early)
  have some_byte : (journal.opening codec).length ≤ count := by
    unfold opening
    split
    · exact Nat.pos_of_ne_zero early
    · exact Nat.zero_le count
  rcases kept.write lawful clean event some_byte (torn count rfl) with ⟨added, valid⟩
  rcases kept.opened lawful clean with ⟨ready, positive, above⟩
  have grown : ∀ line ∈ records codec (journal.file ++ (journal.buffer codec event).take count),
      line ∈ records codec journal.file ∨ line = journal.line codec event ∧
        (journal.opening codec).length + (codec.encode (journal.line codec event)).length ≤
          count := by
    intro line listed
    rw [added] at listed
    rcases List.mem_append.mp listed with listed | new
    · exact .inl listed
    · split at new
      · exact .inr ⟨List.mem_singleton.mp new, ‹_›⟩
      · cases new
  constructor
  · exact valid
  · rw [added]
    refine List.pairwise_append.mpr ⟨kept.increasing, ?_, ?_⟩
    · split
      · exact List.pairwise_singleton _ _
      · exact List.Pairwise.nil
    · intro line listed last new
      split at new
      · exact List.mem_singleton.mp new ▸ above line listed
      · cases new
  · intro line listed
    rcases grown line listed with listed | ⟨rfl, -⟩
    · exact kept.positive line listed
    · exact positive
  · rw [added]
    exact kept.acknowledged.trans (List.sublist_append_left _ _)
  · intro line listed
    rcases grown line listed with listed | ⟨rfl, complete⟩
    · refine (kept.known line listed).imp_right fun landed => ?_
      split
      · exact List.mem_append_left _ landed
      · exact landed
    · right
      rw [if_pos (decide_eq_true complete)]
      exact List.mem_append_right _ List.mem_cons_self
  · rintro handle same unharmed
    cases same
    simp only [Bool.or_eq_false_iff, decide_eq_false_iff_not] at unharmed
    have needed : (journal.opened codec).needsNewline = true := by
      by_contra closed
      exact absurd unharmed.2 (by simp [closed, Nat.pos_of_ne_zero early])
    refine ⟨fun closed => by simp [needed] at closed, positive, ?_⟩
    intro line listed
    rcases grown line listed with listed | ⟨-, complete⟩
    · exact above line listed
    · exact absurd complete unharmed.1.2
  · rintro handle same line listed
    cases same
    exact kept.lt_nextSeq lawful line listed

theorem Kept.step {event : Event ε} (careful : journal.Careful codec event)
    (stepped : journal.step codec event = some next) :
    next.Kept codec := by
  cases event with
  | append event written =>
      cases written with
      | none => exact kept.append lawful (careful.1.resolve_right (by simp)) stepped
      | some count => exact kept.fail lawful careful stepped
  | evict =>
      cases stepped
      exact ⟨kept.valid, kept.increasing, kept.positive, kept.acknowledged, kept.known,
        fun handle none => (by cases none), fun handle none => (by cases none)⟩

end

end Journal

/-! ## The lines of one event -/

section InputAccepted

/-- The bytes of ASCII text. -/
def ascii (text : List Char) : List UInt8 :=
  text.map fun char => UInt8.ofNat char.toNat

/-- The line of an `InputAccepted` with a number. -/
def acceptedLine (seq : Nat) : List UInt8 :=
  ascii "\x7b\"seq\":".toList ++ (ascii (Nat.toDigits 10 seq) ++
    ascii ",\"event\":\x7b\"type\":\"inputAccepted\"\x7d\x7d".toList)

/-- The number of such a line, and nothing for other bytes. -/
def acceptedOf (bytes : List UInt8) : Option (Nat × Unit) :=
  let digits := (bytes.drop 7).takeWhile fun byte => byte != 44
  let seq := Nat.ofDigitChars 10 (digits.map fun byte => Char.ofNat byte.toNat) 0
  if acceptedLine seq = bytes then some (seq, ()) else none

def inputAccepted : Codec Unit where
  encode line := acceptedLine line.1
  parse := acceptedOf
  valid bytes := bytes.all fun byte => decide (byte < 128)

end InputAccepted

namespace Journal

variable {codec}

end Journal

end Zeron.Sessions.Bytes
