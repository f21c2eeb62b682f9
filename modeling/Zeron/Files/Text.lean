import Zeron.Data.Utf8
import Zeron.Files.Source

/-!
# The text of a file

A file is opened as a text with line feeds, and its text is written back with the line
ending and the byte order mark that the file had.
-/

namespace Zeron.Files

open Zeron.Data

inductive WorkspaceTextEncoding where
  | utf8
  | utf8Bom
  | binary
  | unsupported
  deriving DecidableEq

inductive WorkspaceReadOnlyReason where
  | binary
  | unsupportedEncoding
  | tooLarge
  | mixedLineEndings
  deriving DecidableEq

structure WorkspaceFileText where
  checkoutId : String
  path : String
  text : Option String
  contentHash : Option String
  size : Nat
  modifiedAt : Option Int
  encoding : WorkspaceTextEncoding
  lineEnding : Option LineEnding
  readOnlyReason : Option WorkspaceReadOnlyReason
  truncated : Bool
  deriving DecidableEq

/-- `replace("\r\n", "\n")`. -/
def joinLineEndings : List Char → List Char
  | [] => []
  | '\r' :: '\n' :: rest => '\n' :: joinLineEndings rest
  | char :: rest => char :: joinLineEndings rest

/-- `replace('\n', "\r\n")`. -/
def splitLineEndings (text : List Char) : List Char :=
  text.flatMap fun char => if char = '\n' then ['\r', '\n'] else [char]

section

variable (hash : List UInt8 → String) (path : String) (modifiedAt : Option Int)

/-- The answer for a file that is not text. -/
def unreadable (bytes : List UInt8) (encoding : WorkspaceTextEncoding)
    (reason : WorkspaceReadOnlyReason) : WorkspaceFileText where
  checkoutId := ""
  path := path
  text := none
  contentHash := some (hash bytes)
  size := bytes.length
  modifiedAt := modifiedAt
  encoding := encoding
  lineEnding := none
  readOnlyReason := some reason
  truncated := false

/-- `classify_file_text`. -/
def classifyFileText (bytes : List UInt8) : WorkspaceFileText :=
  if 0 ∈ bytes then unreadable hash path modifiedAt bytes .binary .binary
  else
    let encoding :=
      if byteOrderMark.isPrefixOf bytes then WorkspaceTextEncoding.utf8Bom else .utf8
    match decodeUtf8 (withoutMark bytes) with
    | none => unreadable hash path modifiedAt bytes .unsupported .unsupportedEncoding
    | some source =>
        let lineEnding := detectLineEnding (withoutMark bytes)
        { checkoutId := ""
          path
          text := some (String.ofList
            (if lineEnding = .crlf then joinLineEndings source else source))
          contentHash := some (hash bytes)
          size := bytes.length
          modifiedAt
          encoding
          lineEnding := some lineEnding
          readOnlyReason :=
            if maxEditableFileBytes < bytes.length then some .tooLarge
            else if lineEnding = .mixed then some .mixedLineEndings
            else none
          truncated := false }

end

/-- The request that writes an opened text back as it is, with line feeds where the file had
no line ending. -/
def WorkspaceFileText.rewrite (file : WorkspaceFileText) (request : WriteWorkspaceFileRequest) :
    WriteWorkspaceFileRequest :=
  { request with
    text := file.text.getD ""
    crlf := decide (file.lineEnding = some .crlf)
    mark := decide (file.encoding = .utf8Bom) }

/-- The file can be edited, and is the text of the request in its encoding, with its line
ending if there is a line. -/
structure WorkspaceFileText.Shows (file : WorkspaceFileText) (request : WriteWorkspaceFileRequest) :
    Prop where
  editable : file.readOnlyReason = none
  text : file.text = some request.text
  encoding : file.encoding = if request.mark then .utf8Bom else .utf8
  lineEnding : '\n' ∈ request.text.toList →
    file.lineEnding = some (if request.crlf then .crlf else .lf)

/-! ## Line endings of texts -/

variable {bytes : List UInt8}

theorem countLineEndings_append {rest : List UInt8} (plain : 13 ∉ bytes ∧ 10 ∉ bytes) :
    countLineEndings (bytes ++ rest) = countLineEndings rest := by
  induction bytes with
  | nil => rfl
  | cons byte bytes ih =>
      rcases plain with ⟨returns, feeds⟩
      rw [List.mem_cons, not_or] at returns feeds
      rw [List.cons_append, countLineEndings]
      · rw [if_neg (Ne.symm returns.1), if_neg (Ne.symm feeds.1)]
        exact ih ⟨returns.2, feeds.2⟩
      · intro tail same
        exact absurd same.symm returns.1

/-- The pairs, the line feeds and the returns of a text. -/
def countLines : List Char → Nat × Nat × Nat
  | [] => (0, 0, 0)
  | '\r' :: '\n' :: rest =>
      let counts := countLines rest
      (counts.1 + 1, counts.2.1, counts.2.2)
  | char :: rest =>
      let counts := countLines rest
      if char = '\r' then (counts.1, counts.2.1, counts.2.2 + 1)
      else if char = '\n' then (counts.1, counts.2.1 + 1, counts.2.2)
      else counts

theorem encodeUtf8_return (chars : List Char) : encodeUtf8 ('\r' :: chars) = 13 :: encodeUtf8 chars :=
  rfl

theorem encodeUtf8_feed (chars : List Char) : encodeUtf8 ('\n' :: chars) = 10 :: encodeUtf8 chars :=
  rfl

variable {char : Char}

/-- A character is no return before a line feed. -/
theorem countLines_cons {rest : List Char}
    (single : ∀ tail, char = '\r' → rest = '\n' :: tail → False) :
    countLines (char :: rest) =
      if char = '\r' then
        ((countLines rest).1, (countLines rest).2.1, (countLines rest).2.2 + 1)
      else if char = '\n' then
        ((countLines rest).1, (countLines rest).2.1 + 1, (countLines rest).2.2)
      else countLines rest :=
  countLines.eq_3 _ _ single

theorem joinLineEndings_cons {rest : List Char}
    (single : ∀ tail, char = '\r' → rest = '\n' :: tail → False) :
    joinLineEndings (char :: rest) = char :: joinLineEndings rest :=
  joinLineEndings.eq_3 _ _ single

theorem char_eq_of_toNat {first second : Char} (same : first.toNat = second.toNat) : first = second :=
  Char.ext (UInt32.toNat_inj.mp same)

/-- Returns and line feeds occur only in their own codes. -/
theorem plain_utf8EncodeChar (returns : char ≠ '\r') (feeds : char ≠ '\n') :
    13 ∉ String.utf8EncodeChar char ∧ 10 ∉ String.utf8EncodeChar char := by
  constructor
  · intro listed
    exact returns (char_eq_of_toNat (toNat_eq_of_mem_utf8EncodeChar listed (by decide)))
  · intro listed
    exact feeds (char_eq_of_toNat (toNat_eq_of_mem_utf8EncodeChar listed (by decide)))

theorem head_ne_feed {rest : List Char} (feeds : char ≠ '\n') (tail : List UInt8) :
    encodeUtf8 (char :: rest) ≠ 10 :: tail := by
  intro same
  rw [encodeUtf8_cons] at same
  cases code : String.utf8EncodeChar char with
  | nil =>
      have long := String.length_utf8EncodeChar char
      rw [code, List.length_nil] at long
      exact absurd char.utf8Size_pos (by omega)
  | cons byte bytes =>
      rw [code, List.cons_append, List.cons.injEq] at same
      have listed : (10 : UInt8) ∈ String.utf8EncodeChar char := by
        rw [code, same.1]
        exact List.mem_cons_self
      exact feeds (char_eq_of_toNat (toNat_eq_of_mem_utf8EncodeChar listed (by decide)))

theorem countLineEndings_encodeUtf8 (chars : List Char) :
    countLineEndings (encodeUtf8 chars) = countLines chars := by
  induction chars using countLines.induct with
  | case1 => rfl
  | case2 rest ih =>
      rw [encodeUtf8_return, encodeUtf8_feed, countLineEndings, countLines, ih]
  | case3 rest single ih =>
      have alone : ∀ tail, encodeUtf8 rest ≠ 10 :: tail := by
        intro tail
        cases rest with
        | nil => exact fun same => by cases same
        | cons next rest => exact head_ne_feed (fun feed => single rest rfl (by rw [feed])) tail
      rw [encodeUtf8_return, countLineEndings, countLines, ih]
      · rfl
      · exact fun tail _ same => single tail rfl same
      · exact fun tail _ same => alone tail same
  | case4 rest single apart ih =>
      rw [encodeUtf8_feed, countLineEndings, countLines, ih]
      · rfl
      · exact fun tail same => absurd same (by decide)
      · exact fun tail same => absurd same (by decide)
  | case5 char rest single returns feeds ih =>
      rw [encodeUtf8_cons, countLineEndings_append (plain_utf8EncodeChar returns feeds), ih,
        countLines]
      · simp only [if_neg returns, if_neg feeds]
      · exact single

variable {text : List Char}

/-- Without returns only line feeds are counted. -/
theorem countLines_of_plain (plain : '\r' ∉ text) : countLines text = (0, text.count '\n', 0) := by
  induction text with
  | nil => rfl
  | cons char text ih =>
      rw [List.mem_cons, not_or] at plain
      have single : ∀ tail, char = '\r' → text = '\n' :: tail → False :=
        fun _ same => absurd same.symm plain.1
      rw [countLines_cons single, ih plain.2, if_neg (Ne.symm plain.1)]
      by_cases feed : char = '\n'
      · simp [feed]
      · simp [feed]

theorem countLines_splitLineEndings (plain : '\r' ∉ text) :
    countLines (splitLineEndings text) = (text.count '\n', 0, 0) := by
  induction text with
  | nil => rfl
  | cons char text ih =>
      rw [List.mem_cons, not_or] at plain
      rw [splitLineEndings, List.flatMap_cons]
      by_cases feed : char = '\n'
      · rw [if_pos feed, List.cons_append, List.cons_append, List.nil_append, countLines]
        rw [← splitLineEndings, ih plain.2, feed]
        simp
      · have single : ∀ tail, char = '\r' → splitLineEndings text = '\n' :: tail → False :=
          fun _ same => absurd same.symm plain.1
        rw [if_neg feed, List.singleton_append, ← splitLineEndings,
          countLines_cons single, ih plain.2, if_neg (Ne.symm plain.1)]
        simp [feed]

theorem joinLineEndings_splitLineEndings (plain : '\r' ∉ text) :
    joinLineEndings (splitLineEndings text) = text := by
  induction text with
  | nil => rfl
  | cons char text ih =>
      rw [List.mem_cons, not_or] at plain
      rw [splitLineEndings, List.flatMap_cons, ← splitLineEndings]
      by_cases feed : char = '\n'
      · rw [if_pos feed, List.cons_append, List.cons_append, List.nil_append, joinLineEndings,
          ih plain.2, feed]
      · have single : ∀ tail, char = '\r' → splitLineEndings text = '\n' :: tail → False :=
          fun _ same => absurd same.symm plain.1
        rw [if_neg feed, List.singleton_append, joinLineEndings_cons single, ih plain.2]

variable {chars : List Char}

/-- Without returns that stand alone, joining the pairs leaves no return. -/
theorem not_mem_joinLineEndings (none_alone : (countLines chars).2.2 = 0) :
    '\r' ∉ joinLineEndings chars := by
  induction chars using countLines.induct with
  | case1 => simp [joinLineEndings]
  | case2 rest ih =>
      simp [joinLineEndings, ih none_alone]
  | case3 rest single ih =>
      rw [countLines_cons single] at none_alone
      exact absurd none_alone (Nat.succ_ne_zero _)
  | case4 rest single apart ih =>
      rw [joinLineEndings_cons single]
      simp [ih none_alone]
  | case5 char rest single returns feeds ih =>
      rw [countLines_cons single, if_neg returns, if_neg feeds] at none_alone
      rw [joinLineEndings_cons single]
      simp [ih none_alone, Ne.symm returns]

theorem not_mem_of_countLines (none_paired : (countLines chars).1 = 0)
    (none_alone : (countLines chars).2.2 = 0) : '\r' ∉ chars := by
  induction chars using countLines.induct with
  | case1 => simp
  | case2 rest ih =>
      exact absurd none_paired (Nat.succ_ne_zero _)
  | case3 rest single ih =>
      rw [countLines_cons single, if_pos rfl] at none_alone
      exact absurd none_alone (Nat.succ_ne_zero _)
  | case4 rest single apart ih =>
      simp [ih none_paired none_alone]
  | case5 char rest single returns feeds ih =>
      rw [countLines_cons single, if_neg returns, if_neg feeds] at none_paired none_alone
      simp [ih none_paired none_alone, Ne.symm returns]

/-- Where every line ends with a pair, splitting undoes joining. -/
theorem splitLineEndings_joinLineEndings (no_feed : (countLines chars).2.1 = 0) :
    splitLineEndings (joinLineEndings chars) = chars := by
  induction chars using countLines.induct with
  | case1 => rfl
  | case2 rest ih =>
      rw [joinLineEndings, splitLineEndings, List.flatMap_cons, ← splitLineEndings, ih no_feed]
      simp
  | case3 rest single ih =>
      rw [countLines_cons single] at no_feed
      rw [joinLineEndings_cons single, splitLineEndings, List.flatMap_cons, ← splitLineEndings,
        ih no_feed]
      simp
  | case4 rest single apart ih =>
      exact absurd no_feed (Nat.succ_ne_zero _)
  | case5 char rest single returns feeds ih =>
      rw [countLines_cons single, if_neg returns, if_neg feeds] at no_feed
      rw [joinLineEndings_cons single, splitLineEndings, List.flatMap_cons, ← splitLineEndings,
        ih no_feed, if_neg feeds]
      simp
/-! ## Opening and saving -/

theorem detectLineEnding_ne_crlf
    (plain : detectLineEnding (encodeUtf8 chars) = .none ∨
      detectLineEnding (encodeUtf8 chars) = .lf) : '\r' ∉ chars := by
  rw [detectLineEnding, countLineEndings_encodeUtf8] at plain
  split at plain
  · rename_i counts
    exact not_mem_of_countLines (by rw [counts]) (by rw [counts])
  · rename_i counts
    exact not_mem_of_countLines (by rw [counts]) (by rw [counts])
  · simp at plain
  · simp at plain

theorem detectLineEnding_crlf (paired : detectLineEnding (encodeUtf8 chars) = .crlf) :
    (countLines chars).2.1 = 0 ∧ (countLines chars).2.2 = 0 := by
  rw [detectLineEnding, countLineEndings_encodeUtf8] at paired
  split at paired
  · cases paired
  · cases paired
  · rename_i counts
    exact ⟨by rw [counts], by rw [counts]⟩
  · cases paired

theorem detectLineEnding_of_plain (plain : '\r' ∉ text) (feed : '\n' ∈ text) :
    detectLineEnding (encodeUtf8 text) = .lf := by
  rw [detectLineEnding, countLineEndings_encodeUtf8, countLines_of_plain plain]
  have positive : 0 < text.count '\n' := List.count_pos_iff.mpr feed
  cases count : text.count '\n' with
  | zero => omega
  | succ n => rfl

theorem detectLineEnding_splitLineEndings (plain : '\r' ∉ text) (feed : '\n' ∈ text) :
    detectLineEnding (encodeUtf8 (splitLineEndings text)) = .crlf := by
  rw [detectLineEnding, countLineEndings_encodeUtf8, countLines_splitLineEndings plain]
  have positive : 0 < text.count '\n' := List.count_pos_iff.mpr feed
  cases count : text.count '\n' with
  | zero => omega
  | succ n => rfl

/-- A text without a line is the same for both line endings. -/
theorem splitLineEndings_of_not_mem (no_feed : '\n' ∉ text) : splitLineEndings text = text := by
  induction text with
  | nil => rfl
  | cons char text ih =>
      rw [List.mem_cons, not_or] at no_feed
      rw [splitLineEndings, List.flatMap_cons, ← splitLineEndings, ih no_feed.2,
        if_neg (Ne.symm no_feed.1)]
      rfl

theorem detectLineEnding_of_no_line (plain : '\r' ∉ text) (no_feed : '\n' ∉ text) :
    detectLineEnding (encodeUtf8 text) = .none := by
  rw [detectLineEnding, countLineEndings_encodeUtf8, countLines_of_plain plain,
    List.count_eq_zero.mpr no_feed]
  rfl

theorem mem_splitLineEndings (apart : char ≠ '\n') (listed : char ∈ text) :
    char ∈ splitLineEndings text := by
  refine List.mem_flatMap.mpr ⟨char, listed, ?_⟩
  rw [if_neg apart]
  exact List.mem_singleton_self char

theorem mem_of_mem_splitLineEndings (apart : char ≠ '\n') (returns : char ≠ '\r')
    (listed : char ∈ splitLineEndings text) : char ∈ text := by
  rcases List.mem_flatMap.mp listed with ⟨other, there, inside⟩
  split at inside
  · simp [apart, returns] at inside
  · rw [List.mem_singleton] at inside
    rwa [inside]

/-- The lines of a text, with the line ending of a request. -/
def written (crlf : Bool) (text : List Char) : List Char :=
  if crlf then splitLineEndings text else text

theorem encodeWriteText_eq_ok_iff {request : WriteWorkspaceFileRequest} :
    encodeWriteText request = .ok bytes ↔
      '\x00' ∉ request.text.toList ∧ '\r' ∉ request.text.toList ∧
        request.expectedContentHash ≠ "" ∧ bytes.length ≤ maxEditableFileBytes ∧
        bytes = (if request.mark then byteOrderMark else []) ++
          encodeUtf8 (written request.crlf request.text.toList) := by
  have source : (if request.mark then byteOrderMark else []) ++
      ((if request.crlf then
          request.text.toList.flatMap fun char => if char = '\n' then ['\r', '\n'] else [char]
        else request.text.toList).flatMap String.utf8EncodeChar) =
      (if request.mark then byteOrderMark else []) ++
        encodeUtf8 (written request.crlf request.text.toList) := rfl
  unfold encodeWriteText
  dsimp only
  rw [source]
  generalize (if request.mark then byteOrderMark else []) ++
    encodeUtf8 (written request.crlf request.text.toList) = content
  split
  · rename_i zero
    simp [zero]
  · split
    · rename_i returns
      simp [returns]
    · split
      · rename_i missing
        simp [missing]
      · rename_i zero returns missing
        split
        · rename_i long
          simp only [reduceCtorEq, false_iff]
          rintro ⟨-, -, -, short, rfl⟩
          exact absurd long (Nat.not_lt.mpr short)
        · rename_i short
          simp only [Except.ok.injEq]
          constructor
          · rintro rfl
            exact ⟨zero, returns, missing, Nat.not_lt.mp short, rfl⟩
          · rintro ⟨-, -, -, -, same⟩
            exact same.symm

theorem zero_mem_encodeUtf8_iff : 0 ∈ encodeUtf8 chars ↔ '\x00' ∈ chars := by
  rw [mem_encodeUtf8_iff (by decide)]
  constructor
  · rintro ⟨char, listed, same⟩
    have zero : char = '\x00' := char_eq_of_toNat same
    rwa [← zero]
  · exact fun listed => ⟨_, listed, rfl⟩

theorem mark_prefix_iff : byteOrderMark <+: encodeUtf8 chars ↔ chars.head? = some '\uFEFF' := by
  have mark : encodeUtf8 ['\uFEFF'] = byteOrderMark := by decide
  constructor
  · intro starts
    rw [← mark] at starts
    rcases prefix_of_encodeUtf8 starts with ⟨rest, rfl⟩
    rfl
  · intro first
    cases chars with
    | nil => cases first
    | cons char rest =>
        cases first
        exact List.prefix_append _ _

theorem withoutMark_append (bytes : List UInt8) : withoutMark (byteOrderMark ++ bytes) = bytes := by
  have starts : byteOrderMark.isPrefixOf (byteOrderMark ++ bytes) = true :=
    List.isPrefixOf_iff_prefix.mpr (List.prefix_append _ _)
  rfl

theorem mark_append_withoutMark (bytes : List UInt8) :
    (if byteOrderMark.isPrefixOf bytes then byteOrderMark else []) ++ withoutMark bytes = bytes := by
  by_cases starts : byteOrderMark.isPrefixOf bytes = true
  · rcases List.isPrefixOf_iff_prefix.mp starts with ⟨rest, rfl⟩
    rw [if_pos starts, withoutMark_append]
  · rw [if_neg starts, withoutMark, if_neg starts, List.nil_append]

variable {source : List Char}

theorem validateWritableSource_of_text (no_zero : 0 ∉ bytes)
    (decoded : decodeUtf8 (withoutMark bytes) = some source)
    (uniform : detectLineEnding (withoutMark bytes) ≠ .mixed) :
    validateWritableSource bytes = .ok () := by
  have valid : ByteArray.validateUTF8 ⟨(withoutMark bytes).toArray⟩ = true := by
    rw [← List.data_toByteArray, ← isSome_decodeUtf8, decoded, Option.isSome_some]
  rw [validateWritableSource]
  simp [no_zero, valid, uniform]

section

variable {hash : List UInt8 → String} {path : String} {modifiedAt : Option Int} {bytes : List UInt8}
  {request : WriteWorkspaceFileRequest}

/-- What is known of a file that can be edited. -/
theorem classifyFileText_editable
    (editable : (classifyFileText hash path modifiedAt bytes).readOnlyReason = none) :
    ∃ source, decodeUtf8 (withoutMark bytes) = some source ∧ 0 ∉ bytes ∧
      bytes.length ≤ maxEditableFileBytes ∧ detectLineEnding (withoutMark bytes) ≠ .mixed := by
  rw [classifyFileText] at editable
  split at editable
  · cases editable
  · rename_i no_zero
    cases decoded : decodeUtf8 (withoutMark bytes) with
    | none =>
        rw [decoded] at editable
        cases editable
    | some source =>
        rw [decoded] at editable
        dsimp only at editable
        split at editable
        · cases editable
        · rename_i short
          split at editable
          · cases editable
          · rename_i uniform
            exact ⟨source, rfl, no_zero, Nat.not_lt.mp short, uniform⟩

theorem classifyFileText_of_text (no_zero : 0 ∉ bytes)
    (decoded : decodeUtf8 (withoutMark bytes) = some source)
    (short : bytes.length ≤ maxEditableFileBytes)
    (uniform : detectLineEnding (withoutMark bytes) ≠ .mixed) :
    classifyFileText hash path modifiedAt bytes =
      { checkoutId := ""
        path
        text := some (String.ofList
          (if detectLineEnding (withoutMark bytes) = .crlf then joinLineEndings source else source))
        contentHash := some (hash bytes)
        size := bytes.length
        modifiedAt
        encoding := if byteOrderMark.isPrefixOf bytes then .utf8Bom else .utf8
        lineEnding := some (detectLineEnding (withoutMark bytes))
        readOnlyReason := none
        truncated := false } := by
  rw [classifyFileText, if_neg no_zero, decoded]
  simp [uniform, Nat.not_lt.mpr short]

/-- An opened text is written back as the bytes that were opened. -/
theorem rewritten_text_is_unchanged (named : request.expectedContentHash ≠ "")
    (editable : (classifyFileText hash path modifiedAt bytes).readOnlyReason = none) :
    encodeWriteText ((classifyFileText hash path modifiedAt bytes).rewrite request) = .ok bytes ∧
      validateWritableSource bytes = .ok () := by
  rcases classifyFileText_editable editable with ⟨source, decoded, no_zero, short, uniform⟩
  have split := mark_append_withoutMark bytes
  have encoded := decodeUtf8_eq_some_iff.mp decoded
  have no_null : '\x00' ∉ source := by
    intro listed
    apply no_zero
    rw [← split, ← encoded]
    exact List.mem_append_right _ (zero_mem_encodeUtf8_iff.mpr listed)
  refine ⟨?_, validateWritableSource_of_text no_zero decoded uniform⟩
  rw [classifyFileText_of_text no_zero decoded short uniform, encodeWriteText_eq_ok_iff]
  simp only [WorkspaceFileText.rewrite, Option.getD_some, String.toList_ofList,
    Option.some.injEq, decide_eq_true_eq]
  have marked : (if (if byteOrderMark.isPrefixOf bytes then WorkspaceTextEncoding.utf8Bom
      else .utf8) = .utf8Bom then byteOrderMark else []) =
      if byteOrderMark.isPrefixOf bytes then byteOrderMark else [] := by
    split <;> simp
  rw [marked, written]
  by_cases paired : detectLineEnding (withoutMark bytes) = .crlf
  · rw [if_pos paired, decide_eq_true paired, if_pos rfl]
    rw [← encoded] at paired
    rcases detectLineEnding_crlf paired with ⟨no_feed, none_alone⟩
    have joined := splitLineEndings_joinLineEndings no_feed
    refine ⟨?_, not_mem_joinLineEndings none_alone, named, short, ?_⟩
    · intro listed
      exact no_null (joined ▸ mem_splitLineEndings (by decide) listed)
    · rw [joined, encoded, split]
  · have plain : detectLineEnding (encodeUtf8 source) = .none ∨
        detectLineEnding (encodeUtf8 source) = .lf := by
      rw [encoded]
      cases found : detectLineEnding (withoutMark bytes) with
      | none => exact .inl rfl
      | lf => exact .inr rfl
      | crlf => exact absurd found paired
      | mixed => exact absurd found uniform
    rw [if_neg paired, decide_eq_false paired]
    refine ⟨no_null, detectLineEnding_ne_crlf plain, named, short, ?_⟩
    rw [if_neg Bool.false_ne_true, encoded, split]

/-- The bytes of a text, opened again. -/
theorem withoutMark_written {mark : Bool} (unmarked : mark = false → source.head? ≠ some '\uFEFF') :
    withoutMark ((if mark then byteOrderMark else []) ++ encodeUtf8 source) = encodeUtf8 source ∧
      (byteOrderMark.isPrefixOf ((if mark then byteOrderMark else []) ++ encodeUtf8 source) = true ↔
        mark = true) := by
  cases mark with
  | true =>
      rw [if_pos rfl, withoutMark_append]
      simp
  | false =>
      have first := unmarked rfl
      have apart : ¬ byteOrderMark.isPrefixOf (encodeUtf8 source) = true := by
        rw [List.isPrefixOf_iff_prefix, mark_prefix_iff]
        exact first
      rw [withoutMark]
      simp [apart]

theorem head_written (crlf : Bool) (text : List Char) :
    (written crlf text).head? = some '\uFEFF' ↔ text.head? = some '\uFEFF' := by
  cases crlf with
  | false => rfl
  | true =>
      cases text with
      | nil => rfl
      | cons char text =>
          rw [written, splitLineEndings, List.flatMap_cons]
          by_cases feed : char = '\n'
          · rw [feed]
            simp
          · rw [if_neg feed]
            rfl

theorem not_mem_written (mark crlf : Bool) (no_null : '\x00' ∉ text) :
    0 ∉ (if mark then byteOrderMark else []) ++ encodeUtf8 (written crlf text) := by
  rw [List.mem_append, not_or, zero_mem_encodeUtf8_iff]
  constructor
  · cases mark <;> decide
  · cases crlf with
    | true =>
        exact fun listed => no_null (mem_of_mem_splitLineEndings (by decide) (by decide) listed)
    | false => exact no_null

/-- How the bytes of a text are seen, with or without a line. -/
theorem written_lines {crlf : Bool} (plain : '\r' ∉ text) :
    detectLineEnding (encodeUtf8 (written crlf text)) ≠ .mixed ∧
      ('\n' ∈ text → detectLineEnding (encodeUtf8 (written crlf text)) =
        if crlf then .crlf else .lf) ∧
      (if detectLineEnding (encodeUtf8 (written crlf text)) = .crlf
        then joinLineEndings (written crlf text) else written crlf text) = text := by
  by_cases feed : '\n' ∈ text
  · cases crlf with
    | true =>
        rw [written, if_pos rfl, detectLineEnding_splitLineEndings plain feed, joinLineEndings_splitLineEndings plain]
        simp
    | false =>
        rw [written, if_neg Bool.false_ne_true, detectLineEnding_of_plain plain feed]
        simp
  · have same : written crlf text = text := by
      cases crlf with
      | true => exact splitLineEndings_of_not_mem feed
      | false => rfl
    rw [same, detectLineEnding_of_no_line plain feed]
    simp [feed]

/-- A saved text is opened as it was, unless it is saved without a mark and begins with one. -/
theorem saved_text_is_shown_iff (saved : encodeWriteText request = .ok bytes) :
    (classifyFileText hash path modifiedAt bytes).Shows request ↔
      ¬ (request.mark = false ∧ request.text.toList.head? = some '\uFEFF') := by
  rcases encodeWriteText_eq_ok_iff.mp saved with ⟨no_null, plain, -, short, rfl⟩
  constructor
  · rintro shown ⟨unmarked, first⟩
    rcases classifyFileText_editable shown.editable with ⟨source, decoded, no_zero, -, uniform⟩
    have encoding := shown.encoding
    rw [classifyFileText_of_text no_zero decoded short uniform] at encoding
    have starts : byteOrderMark.isPrefixOf
        (encodeUtf8 (written request.crlf request.text.toList)) = true := by
      rw [List.isPrefixOf_iff_prefix, mark_prefix_iff, head_written]
      exact first
    simp [unmarked, starts] at encoding
  · intro apart
    have unmarked : request.mark = false →
        (written request.crlf request.text.toList).head? ≠ some '\uFEFF' := by
      intro mark first
      exact apart ⟨mark, (head_written _ _).mp first⟩
    rcases withoutMark_written unmarked with ⟨bare, marked⟩
    rcases written_lines plain with ⟨uniform, lines, text⟩
    have no_zero := not_mem_written request.mark request.crlf no_null
    rw [classifyFileText_of_text no_zero (by rw [bare, decodeUtf8_encodeUtf8]) short
      (by rw [bare]; exact uniform)]
    constructor
    · rfl
    · simp only [bare, text, String.ofList_toList]
    · simp only [marked]
    · intro feed
      simp only [bare, lines feed]

/-- Opening and saving undo each other, and exactly the texts that begin with the mark
character and are saved without a mark are not opened as they were. -/
theorem opening_and_saving_round_trip_iff (hash : List UInt8 → String) (path : String)
    (modifiedAt : Option Int) (bytes : List UInt8) (request : WriteWorkspaceFileRequest) :
    (request.expectedContentHash ≠ "" →
      (classifyFileText hash path modifiedAt bytes).readOnlyReason = none →
        encodeWriteText ((classifyFileText hash path modifiedAt bytes).rewrite request) = .ok bytes ∧
          validateWritableSource bytes = .ok ()) ∧
      (encodeWriteText request = .ok bytes →
        ((classifyFileText hash path modifiedAt bytes).Shows request ↔
          ¬ (request.mark = false ∧ request.text.toList.head? = some '\uFEFF'))) :=
  ⟨rewritten_text_is_unchanged, saved_text_is_shown_iff⟩

end

/-- A save of a text without a target. -/
def plainSave (text : String) (crlf mark : Bool) : WriteWorkspaceFileRequest where
  target := { chatId := none, spaceId := none, checkoutPath := none }
  path := "notes.txt"
  expectedCheckoutId := "checkout"
  expectedContentHash := "hash"
  text := text
  crlf := crlf
  mark := mark

theorem opening_and_saving_round_trip_two_lines :
    let bytes : List UInt8 := [0xef, 0xbb, 0xbf, 97, 13, 10, 98]
    encodeWriteText ((classifyFileText (fun _ => "hash") "notes.txt" none bytes).rewrite
        (plainSave "" false false)) = .ok bytes ∧
      (classifyFileText (fun _ => "hash") "notes.txt" none bytes).Shows
        (plainSave "a\nb" true true) := by
  intro bytes
  have decoded : decodeUtf8 (withoutMark bytes) = some ['a', '\r', '\n', 'b'] :=
    decodeUtf8_eq_some_iff.mpr (by decide)
  have editable : (classifyFileText (fun _ => "hash") "notes.txt" none bytes).readOnlyReason =
      none := by
    rw [classifyFileText_of_text (by decide) decoded (by decide) (by decide)]
  have encoded : encodeWriteText (plainSave "a\nb" true true) = .ok bytes := by
    decide
  constructor
  · exact ((opening_and_saving_round_trip_iff (fun _ => "hash") "notes.txt" none bytes
      (plainSave "" false false)).1 (by decide) editable).1
  · exact ((opening_and_saving_round_trip_iff (fun _ => "hash") "notes.txt" none bytes
      (plainSave "a\nb" true true)).2 encoded).mpr (by decide)

/-- The mark character of an unmarked text is taken for the mark of the file. -/
theorem leading_mark_character_is_lost :
    let bytes : List UInt8 := [0xef, 0xbb, 0xbf, 97]
    let file := classifyFileText (fun _ => "hash") "notes.txt" none bytes
    encodeWriteText (plainSave "\uFEFFa" false false) = .ok bytes ∧
      file.text = some "a" ∧ file.encoding = .utf8Bom ∧ file.readOnlyReason = none ∧
      ¬ file.Shows (plainSave "\uFEFFa" false false) := by
  intro bytes file
  have decoded : decodeUtf8 (withoutMark bytes) = some ['a'] :=
    decodeUtf8_eq_some_iff.mpr (by decide)
  have opened : file = _ := classifyFileText_of_text (by decide) decoded (by decide) (by decide)
  have text : file.text = some "a" := by
    decide
  have encoding : file.encoding = .utf8Bom := by
    decide
  refine ⟨?_, text, encoding, ?_, fun shown => ?_⟩
  · decide
  · rw [opened]
  · have expected := shown.encoding
    rw [encoding] at expected
    cases expected

/-- A file that was saved can be saved again, also where its text is opened as another. -/
theorem saved_source_is_writable {request : WriteWorkspaceFileRequest} {bytes : List UInt8}
    (saved : encodeWriteText request = .ok bytes) : validateWritableSource bytes = .ok () := by
  obtain ⟨no_null, plain, -, -, rfl⟩ := encodeWriteText_eq_ok_iff.mp saved
  have no_zero := not_mem_written request.mark request.crlf no_null
  by_cases apart : request.mark = false → request.text.toList.head? ≠ some '\uFEFF'
  · have bare := (withoutMark_written fun mark => (head_written request.crlf _).not.mpr (apart mark)).1
    exact validateWritableSource_of_text no_zero (by rw [bare, decodeUtf8_encodeUtf8])
      (by rw [bare]; exact (written_lines plain).1)
  · -- The first character is taken for the mark.
    obtain ⟨unmarked, first⟩ := Classical.not_imp.mp apart
    obtain ⟨rest, text⟩ := List.head?_eq_some_iff.mp (not_not.mp first)
    have shown : written request.crlf ('\uFEFF' :: rest) = '\uFEFF' :: written request.crlf rest := by
      cases request.crlf <;> rfl
    rw [text] at plain
    rw [unmarked, text, shown] at no_zero ⊢
    have bare := withoutMark_append (encodeUtf8 (written request.crlf rest))
    exact validateWritableSource_of_text no_zero (bare ▸ decodeUtf8_encodeUtf8 _)
      (bare ▸ (written_lines (List.not_mem_of_not_mem_cons plain)).1)

theorem saved_source_is_writable_mark : validateWritableSource [0xef, 0xbb, 0xbf, 97] = .ok () := by
  have saved : encodeWriteText (plainSave "\uFEFFa" false false) = .ok [0xef, 0xbb, 0xbf, 97] :=
    encodeWriteText_eq_ok_iff.mpr (by decide)
  exact saved_source_is_writable saved

end Zeron.Files
