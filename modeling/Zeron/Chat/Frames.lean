import Zeron.Chat.Replay
import Zeron.Data.Blocks

/-!
# Frames of a chat

A frame is a kind, a header in JSON behind its length, and a payload.  Over HTTPS the room
answers with a body of frames, each behind its length, and the client goes through the
body with the decoder of the socket.  The parsers of JSON, `serde_json::from_slice` and
`JSON.parse`, are parameters.
-/

namespace Zeron.Chat

open Data Wire

/-- `WireFrame`. -/
structure WireFrame where
  kind : UInt8
  header : Json
  payload : List UInt8

/-- `FRAME`. -/
def helloKind : UInt8 := 0x01
def stateKind : UInt8 := 0x02
def rowsReqKind : UInt8 := 0x03
def rowKind : UInt8 := 0x04
def rowsDoneKind : UInt8 := 0x05
def pushKind : UInt8 := 0x06
def ackKind : UInt8 := 0x07
def presenceKind : UInt8 := 0x08
def probeKind : UInt8 := 0x09
def probeOkKind : UInt8 := 0x0a
def errorKind : UInt8 := 0x0b

/-- `KNOWN_TYPES`. -/
def knownKind (kind : UInt8) : Bool :=
  [helloKind, stateKind, rowsReqKind, rowKind, rowsDoneKind, pushKind, ackKind, presenceKind,
    probeKind, probeOkKind, errorKind].contains kind

/-- `MAX_HEADER_BYTES`. -/
def maxHeaderBytes : Nat := 4096

/-- `header.is_object()`. -/
def isObject : Json → Bool
  | .obj _ => true
  | _ => false

/-- The header as both languages print it, in UTF-8. -/
def headerBytes (header : Json) : List UInt8 :=
  header.stringify.flatMap String.utf8EncodeChar

/-- A frame with its header behind its length. -/
def encodeFrame (frame : WireFrame) : List UInt8 :=
  let header := headerBytes frame.header
  frame.kind :: (Blocks.toLeBytes header.length ++ (header ++ frame.payload))

/-- Read a frame of an accepted kind: the inner option is `None` for a malformed one, and the
outer one fails for a read outside the bytes. -/
def parseFrame (parse : List UInt8 → Option Json) (accepts : UInt8 → Bool)
    (bytes : List UInt8) : Option (Option WireFrame) :=
  if bytes.length < 5 then some none
  else
    (Blocks.slice bytes 0 1).bind fun first =>
      (Blocks.slice bytes 1 5).bind fun number =>
        let kind := first.headD 0
        let headerLen := Blocks.ofLeBytes number
        if !accepts kind then some none
        else if headerLen > maxHeaderBytes ∨ 5 + headerLen > bytes.length then some none
        else
          (Blocks.slice bytes 5 (5 + headerLen)).bind fun text =>
            match parse text with
            | none => some none
            | some header =>
                if !isObject header then some none
                else
                  (Blocks.slice bytes (5 + headerLen) bytes.length).map fun payload =>
                    some { kind, header, payload }

/-- `decode`, of the client: unknown kinds are not rejected. -/
def decode (fromSlice : List UInt8 → Option Json) (bytes : List UInt8) :
    Option (Option WireFrame) :=
  parseFrame fromSlice (fun _ => true) bytes

/-- `decodeFrame`, of the room. -/
def decodeFrame (parse : List UInt8 → Option Json) (bytes : List UInt8) :
    Option (Option WireFrame) :=
  parseFrame parse knownKind bytes

/-- The body of `/rows`: each frame behind its length. -/
def rowsBody (frames : List WireFrame) : List UInt8 :=
  Blocks.write (frames.map encodeFrame)

/-- The client's loop through the body. -/
def bodyFrames (fromSlice : List UInt8 → Option Json) (body : List UInt8) :
    Option (List WireFrame) :=
  Blocks.readAll (decode fromSlice) body 0

/-! ## A frame -/

section Frame

variable {parse : List UInt8 → Option Json} {accepts : UInt8 → Bool} {frame : WireFrame}
  {bytes : List UInt8}

theorem length_headerBytes (header : Json) : (headerBytes header).length = header.byteLength := by
  rw [headerBytes, Json.byteLength, List.length_flatMap]
  simp only [String.length_utf8EncodeChar]

theorem length_encodeFrame (frame : WireFrame) :
    (encodeFrame frame).length = 5 + (headerBytes frame.header).length + frame.payload.length := by
  simp only [encodeFrame, List.length_cons, List.length_append, Blocks.length_toLeBytes]
  omega

/-- No read of a decoder is outside the bytes. -/
theorem exists_parseFrame (parse : List UInt8 → Option Json) (accepts : UInt8 → Bool)
    (bytes : List UInt8) : ∃ item, parseFrame parse accepts bytes = some item := by
  unfold parseFrame
  split
  · exact ⟨none, rfl⟩
  · rename_i long
    rcases Blocks.isSome_slice bytes (Nat.zero_le 1) (by omega) with ⟨first, first_read⟩
    rcases Blocks.isSome_slice bytes (Nat.le_add_right 1 4) (by omega) with ⟨number, number_read⟩
    rw [first_read, number_read, Option.bind_some, Option.bind_some]
    dsimp only
    split
    · exact ⟨none, rfl⟩
    · split
      · exact ⟨none, rfl⟩
      · rename_i fits
        rw [not_or, Nat.not_lt, Nat.not_lt] at fits
        rcases Blocks.isSome_slice bytes (Nat.le_add_right 5 (Blocks.ofLeBytes number)) fits.2 with
          ⟨text, text_read⟩
        rcases Blocks.isSome_slice bytes fits.2 (le_refl _) with ⟨payload, payload_read⟩
        rw [text_read, payload_read, Option.bind_some]
        cases parse text with
        | none => exact ⟨none, rfl⟩
        | some header =>
            dsimp only
            split
            · exact ⟨none, rfl⟩
            · exact ⟨_, rfl⟩

/-- A payload is a part of the bytes. -/
theorem length_payload_le (read : parseFrame parse accepts bytes = some (some frame)) :
    frame.payload.length ≤ bytes.length := by
  unfold parseFrame at read
  split at read
  · cases read
  · rcases Option.bind_eq_some_iff.mp read with ⟨first, _, read⟩
    rcases Option.bind_eq_some_iff.mp read with ⟨number, _, read⟩
    dsimp only at read
    split at read
    · cases read
    · split at read
      · cases read
      · rcases Option.bind_eq_some_iff.mp read with ⟨text, _, read⟩
        split at read
        · cases read
        · split at read
          · cases read
          · rcases Option.map_eq_some_iff.mp read with ⟨payload, payload_read, same⟩
            cases same
            rw [Blocks.length_slice payload_read]
            exact Nat.sub_le _ _

/-- A frame is read as it was encoded, by a reader that accepts its kind and its header. -/
theorem parseFrame_encodeFrame (accepted : accepts frame.kind = true)
    (reads : parse (headerBytes frame.header) = some frame.header)
    (object : isObject frame.header = true)
    (tiny : (headerBytes frame.header).length ≤ maxHeaderBytes) :
    parseFrame parse accepts (encodeFrame frame) = some (some frame) := by
  have size := length_encodeFrame frame
  have first : Blocks.slice (encodeFrame frame) 0 1 = some [frame.kind] :=
    Blocks.slice_left [frame.kind] _
  have number : Blocks.slice (encodeFrame frame) 1 5 =
      some (Blocks.toLeBytes (headerBytes frame.header).length) :=
    Blocks.slice_middle [frame.kind] (Blocks.toLeBytes (headerBytes frame.header).length) _ rfl rfl
  have announced : Blocks.ofLeBytes (Blocks.toLeBytes (headerBytes frame.header).length) =
      (headerBytes frame.header).length := by
    rw [Blocks.ofLeBytes_toLeBytes]
    rw [maxHeaderBytes] at tiny
    omega
  have text : Blocks.slice (encodeFrame frame) 5 (5 + (headerBytes frame.header).length) =
      some (headerBytes frame.header) :=
    Blocks.slice_middle (frame.kind :: Blocks.toLeBytes (headerBytes frame.header).length) _ _ rfl
      rfl
  have payload : Blocks.slice (encodeFrame frame) (5 + (headerBytes frame.header).length)
      (encodeFrame frame).length = some frame.payload := by
    have laid : encodeFrame frame =
        (frame.kind :: (Blocks.toLeBytes (headerBytes frame.header).length ++
          headerBytes frame.header)) ++ (frame.payload ++ []) := by
      rw [encodeFrame, List.append_nil, List.cons_append, List.append_assoc]
    rw [laid]
    apply Blocks.slice_middle
    · simp only [List.length_cons, List.length_append, Blocks.length_toLeBytes]
      omega
    · rw [← laid, size]
  rw [parseFrame, if_neg (by omega), first, number, Option.bind_some, Option.bind_some]
  dsimp only
  rw [announced, List.headD_cons, accepted, if_neg (by decide), if_neg (by omega), text,
    Option.bind_some, reads]
  dsimp only
  rw [object, payload]
  rfl

end Frame

/-! ## The body -/

section Body

variable {fromSlice : List UInt8 → Option Json} {frame : WireFrame} {frames : List WireFrame}
  {body : List UInt8}

/-- Neither side reads a byte outside what it is sent, whatever that is. -/
theorem exists_bodyFrames (parse : List UInt8 → Option Json) (bytes : List UInt8) :
    (∃ frames, bodyFrames parse bytes = some frames) ∧
      ∃ frame, decodeFrame parse bytes = some frame :=
  ⟨Blocks.isSome_readAll (exists_parseFrame parse fun _ => true) bytes 0,
    exists_parseFrame parse knownKind bytes⟩

/-- A payload that a length cannot express does not arrive. -/
theorem length_payload_lt (received : bodyFrames fromSlice body = some frames)
    (listed : frame ∈ frames) : frame.payload.length < 2 ^ 32 := by
  rcases Blocks.exists_block_of_mem received listed with ⟨block, short, read⟩
  exact lt_of_le_of_lt (length_payload_le read) short

/-- Frames with small headers, each shorter than its length can say, arrive as they were
sent, and a body that is cut gives the first of them. -/
theorem rows_body_arrives
    (reads : ∀ frame ∈ frames, fromSlice (headerBytes frame.header) = some frame.header)
    (objects : ∀ frame ∈ frames, isObject frame.header = true)
    (tiny : ∀ frame ∈ frames, (headerBytes frame.header).length ≤ maxHeaderBytes)
    (short : ∀ frame ∈ frames, (encodeFrame frame).length < 2 ^ 32) :
    bodyFrames fromSlice (rowsBody frames) = some frames ∧
      ∀ cut, ∃ received, bodyFrames fromSlice ((rowsBody frames).take cut) = some received ∧
        received <+: frames := by
  have decodes : ∀ frame ∈ frames, decode fromSlice (encodeFrame frame) = some (some frame) := by
    intro frame listed
    exact parseFrame_encodeFrame rfl (reads frame listed) (objects frame listed) (tiny frame listed)
  exact ⟨Blocks.readAll_write short decodes, Blocks.readAll_take_write short decodes⟩

end Body

/-- A parser that knows one text. -/
def parserOf (header : Json) (text : List UInt8) : Option Json :=
  if text = headerBytes header then some header else none

/-- The header of a first row. -/
def rowHeader : Json :=
  .obj [("seq", .num "1"), ("device", .str "phone"), ("batchId", .str "b")]

theorem rows_body_arrives_of_two :
    bodyFrames (parserOf rowHeader)
        (rowsBody [⟨rowKind, rowHeader, [7, 8]⟩, ⟨rowKind, rowHeader, []⟩]) =
        some [⟨rowKind, rowHeader, [7, 8]⟩, ⟨rowKind, rowHeader, []⟩] ∧
      ∀ cut, ∃ received, bodyFrames (parserOf rowHeader) ((rowsBody
          [⟨rowKind, rowHeader, [7, 8]⟩, ⟨rowKind, rowHeader, []⟩]).take cut) = some received ∧
        received <+: [⟨rowKind, rowHeader, [7, 8]⟩, ⟨rowKind, rowHeader, []⟩] :=
  rows_body_arrives (by decide +kernel) (by decide) (by decide +kernel) (by decide +kernel)

/-- A row of four gigabytes. -/
def hugeRow : WireFrame :=
  { kind := rowKind, header := rowHeader, payload := List.replicate (2 ^ 32) 0 }

/-- A frame whose length does not fit into four bytes does not arrive, though its header is
a small object that the client reads. -/
theorem huge_row_is_lost :
    isObject hugeRow.header = true ∧
      (headerBytes hugeRow.header).length ≤ maxHeaderBytes ∧
        parserOf rowHeader (headerBytes hugeRow.header) = some hugeRow.header ∧
          bodyFrames (parserOf rowHeader) (rowsBody [hugeRow]) ≠ some [hugeRow] := by
  refine ⟨rfl, ?_, if_pos rfl, ?_⟩
  · decide +kernel
  · intro received
    have short := length_payload_lt received List.mem_cons_self
    rw [hugeRow, List.length_replicate] at short
    exact lt_irrefl _ short

/-! ## The room's answer -/

/-- A row as a frame. -/
def LogRow.toFrame (row : LogRow) : WireFrame where
  kind := rowKind
  header := .obj [("seq", .num (toString row.seq)), ("device", .str row.device),
    ("batchId", .str row.batchId)]
  payload := row.bytes

/-- `ROWS_BODY_CAP`. -/
def rowsBodyCap : Nat := 4 * 1024 * 1024

/-- The rows that the body has room for, and whether these are all. -/
def pageFrames : Nat → List LogRow → List WireFrame × Bool
  | _, [] => ([], true)
  | bodyBytes, row :: rows =>
      let bodyBytes := bodyBytes + 4 + (encodeFrame row.toFrame).length
      if bodyBytes > rowsBodyCap then ([], false)
      else
        let rest := pageFrames bodyBytes rows
        (row.toFrame :: rest.1, rest.2)

/-! ## Pulling by pages -/

/-- A room, and a client that pulls: its cursor and the rows it has passed. -/
structure Pulling where
  room : ChatRoom
  cursor : Nat
  received : List LogRow

inductive PullEvent where
  | append (device batchId : String) (bytes : List UInt8)
  /-- With the rows that the document does not park. -/
  | pull (applied : LogRow → Bool)

namespace Pulling

/-- `apply_remote_row`: the cursor walks, does not jump, and waits where a row is parked. -/
def read (applied : LogRow → Bool) (state : Pulling) (row : LogRow) : Pulling :=
  let cursor := if state.cursor + 1 < row.seq then state.cursor else max state.cursor row.seq
  if applied row = true ∧ state.cursor < cursor then
    { state with cursor, received := state.received ++ [row] }
  else state

def rest (state : Pulling) : List LogRow :=
  state.room.rowsAfter state.cursor

/-- The rows of the next answer, and whether they are all. -/
def page (state : Pulling) : List WireFrame × Bool :=
  pageFrames 0 state.rest

def step : Transition.Step Pulling PullEvent
  | state, .append device batchId bytes =>
      some { state with room := (state.room.appendRow device batchId bytes).1 }
  | state, .pull applied => some ((state.rest.take state.page.1.length).foldl (read applied) state)

variable {applied : LogRow → Bool} {state next : Pulling} {rest : List LogRow}

/-- The rows are those received and the next ones. -/
structure Split (state : Pulling) (rest : List LogRow) : Prop where
  rows : state.room.rows = state.received ++ rest
  old : ∀ row ∈ state.received, row.seq ≤ state.cursor
  numbers : rest.map LogRow.seq = List.range' (state.cursor + 1) rest.length
  head : state.room.headSeq = state.cursor + rest.length

def Inv (state : Pulling) : Prop :=
  ∃ rest, Split state rest

variable {row : LogRow}

theorem Split.lt (split : Split state rest) (listed : row ∈ rest) : state.cursor < row.seq := by
  have number : row.seq ∈ rest.map LogRow.seq := List.mem_map_of_mem listed
  rw [split.numbers, List.mem_range'_1] at number
  exact number.1

theorem Split.rest_eq (split : Split state rest) : state.rest = rest := by
  have gone : state.received.filter (fun row => state.cursor < row.seq) = [] :=
    List.filter_eq_nil_iff.mpr fun row listed => by simpa using split.old row listed
  have kept : rest.filter (fun row => state.cursor < row.seq) = rest :=
    List.filter_eq_self.mpr fun row listed => decide_eq_true (split.lt listed)
  rw [Pulling.rest, ChatRoom.rowsAfter, split.rows, List.filter_append, gone, kept, List.nil_append]

theorem Split.numbers_cons (split : Split state (row :: rest)) :
    row.seq = state.cursor + 1 ∧
      rest.map LogRow.seq = List.range' (state.cursor + 1 + 1) rest.length := by
  have numbers := split.numbers
  rwa [List.map_cons, List.length_cons, List.range'_succ, List.cons.injEq] at numbers

theorem read_of_applied (number : row.seq = state.cursor + 1) (taken : applied row = true) :
    read applied state row =
      { state with cursor := state.cursor + 1, received := state.received ++ [row] } := by
  rw [read, number, if_neg (lt_irrefl _), max_eq_right (Nat.le_succ _),
    if_pos ⟨taken, Nat.lt_succ_self _⟩]

theorem Split.read (split : Split state (row :: rest)) (taken : applied row = true) :
    Split (read applied state row) rest := by
  obtain ⟨number, numbers⟩ := split.numbers_cons
  rw [read_of_applied number taken]
  refine ⟨?_, ?_, numbers, ?_⟩
  · rw [split.rows, List.append_assoc, List.singleton_append]
  · intro other listed
    rcases List.mem_append.mp listed with before | this
    · exact Nat.le_succ_of_le (split.old other before)
    · rw [List.mem_singleton.mp this, number]
  · have head := split.head
    rw [List.length_cons] at head
    exact head.trans (by dsimp only; omega)

/-- Behind a parked row the cursor stays. -/
theorem foldl_read_of_gap {rows : List LogRow} (gap : ∀ row ∈ rows, state.cursor + 1 < row.seq) :
    rows.foldl (read applied) state = state := by
  induction rows with
  | nil => rfl
  | cons row rows ih =>
      have still : read applied state row = state := by
        rw [read, if_pos (gap row List.mem_cons_self), if_neg fun moved => lt_irrefl _ moved.2]
      rw [List.foldl_cons, still, ih fun other listed => gap other (List.mem_cons_of_mem _ listed)]

theorem Split.foldl_read (split : Split state rest) (count : Nat) :
    Inv ((rest.take count).foldl (Pulling.read applied) state) := by
  induction rest generalizing state count with
  | nil => exact ⟨_, by simpa using split⟩
  | cons row rest ih =>
      cases count with
      | zero => exact ⟨_, split⟩
      | succ count =>
          rw [List.take_succ_cons, List.foldl_cons]
          by_cases taken : applied row = true
          · exact ih (split.read taken) count
          · have still : Pulling.read applied state row = state := by
              rw [Pulling.read, if_neg fun moved => taken moved.1]
            rw [still, foldl_read_of_gap]
            · exact ⟨_, split⟩
            · intro other listed
              have number : other.seq ∈ rest.map LogRow.seq :=
                List.mem_map_of_mem (List.mem_of_mem_take listed)
              rw [split.numbers_cons.2, List.mem_range'_1] at number
              exact number.1

theorem Inv.step {event : PullEvent} (inv : Inv state)
    (stepped : Pulling.step state event = some next) : Inv next := by
  obtain ⟨rest, split⟩ := inv
  cases event with
  | append device batchId bytes =>
      cases stepped
      obtain ⟨_, _, result⟩ | ⟨_, _, _, _, result⟩ | ⟨_, _, result⟩ :=
        state.room.appendRow_cases device batchId bytes
      · exact ⟨rest, by rwa [result]⟩
      · exact ⟨rest, by rwa [result]⟩
      · rw [result]
        refine ⟨rest ++ [⟨state.room.headSeq + 1, device, batchId, bytes⟩], ?_, split.old, ?_, ?_⟩
        · rw [split.rows, List.append_assoc]
        · have last : state.cursor + rest.length + 1 = state.cursor + 1 + rest.length := by omega
          rw [List.map_append, split.numbers, split.head, last, List.length_append]
          exact List.range'_1_concat.symm
        · rw [List.length_append, split.head]
          rfl
  | pull applied =>
      cases stepped
      rw [split.rest_eq]
      exact split.foldl_read _

end Pulling

/-- A page starts the rows, and is all of them where it says so. -/
theorem prefix_pageFrames (bodyBytes : Nat) (rows : List LogRow) :
    (pageFrames bodyBytes rows).1 <+: rows.map LogRow.toFrame ∧
      ((pageFrames bodyBytes rows).2 = true →
        (pageFrames bodyBytes rows).1 = rows.map LogRow.toFrame) := by
  induction rows generalizing bodyBytes with
  | nil => exact ⟨List.prefix_rfl, fun _ => rfl⟩
  | cons row rows ih =>
      rw [pageFrames]
      split
      · exact ⟨List.nil_prefix, nofun⟩
      · have later := ih (bodyBytes + 4 + (encodeFrame row.toFrame).length)
        exact ⟨(List.prefix_cons_inj _).mpr later.1, fun all => congrArg _ (later.2 all)⟩

theorem pageFrames_ne_nil {rows : List LogRow} (left : rows ≠ [])
    (fits : ∀ row ∈ rows, 4 + (encodeFrame row.toFrame).length ≤ rowsBodyCap) :
    (pageFrames 0 rows).1 ≠ [] := by
  obtain ⟨row, rows, rfl⟩ := List.exists_cons_of_ne_nil left
  have small := fits row List.mem_cons_self
  rw [pageFrames]
  rw [if_neg (by omega)]
  exact List.cons_ne_nil _ _

/-- What a client has pulled and what is left are the rows of the room, whatever is pushed between.
A page starts what is left, is all of it where it says so, and is not empty while rows are left
that fit. -/
theorem pulls_are_whole (events : List PullEvent) :
    Transition.EveryState Pulling.step (fun state =>
      state.received ++ state.rest = state.room.rows ∧
        state.page.1 <+: state.rest.map LogRow.toFrame ∧
        (state.page.2 = true → state.page.1 = state.rest.map LogRow.toFrame) ∧
        (state.rest ≠ [] →
          (∀ row ∈ state.rest, 4 + (encodeFrame row.toFrame).length ≤ rowsBodyCap) →
            state.page.1 ≠ []))
      ⟨.initial, 0, []⟩ events := by
  refine Transition.everyState_of_invariant Pulling.Inv.step ?_
    ⟨[], rfl, fun _ none => absurd none List.not_mem_nil, rfl, rfl⟩ events
  rintro state ⟨rest, split⟩
  obtain ⟨starts, whole⟩ := prefix_pageFrames 0 state.rest
  exact ⟨by rw [split.rest_eq, split.rows], starts, whole, pageFrames_ne_nil⟩

end Zeron.Chat
