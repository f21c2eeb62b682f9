import Zeron.Data.Assoc
import Zeron.Data.Leb128
import Zeron.Wire.JsonText

/-!
# Device frames

A frame is the length of a header in groups of seven bits, the JSON of the header and a payload.
The engine writes and reads the groups by hand, in machine words of 32 or 64 bits; the edge
leaves them to a reader and a writer of its transport.
-/

namespace Zeron.Rpc

open Data Wire

structure DeviceFrameHeader where
  s : String
  k : String
  toConn : Option String
  fromConn : Option String
  deriving DecidableEq

namespace DeviceFrameHeader

/-- The fields that are written, absent ones left out. -/
def fields (header : DeviceFrameHeader) : List (String × String) :=
  [("s", header.s), ("k", header.k)] ++ (header.toConn.map fun conn => ("to", conn)).toList ++
    (header.fromConn.map fun conn => ("from", conn)).toList

/-- The object with some text fields. -/
def object (fields : List (String × String)) : Json :=
  .obj (fields.map fun field => (field.1, .str field.2))

/-- A field that must be there. -/
def required (name : String) (members : List (String × Json)) : Option String :=
  (members.lookup name).bind Json.asString

/-- A field that may be left out or `null`. -/
def optional (name : String) (members : List (String × Json)) : Option (Option String) :=
  match members.lookup name with
  | none | some .null => some none
  | some value => value.asString.map some

/-- What `Deserialize` derives; other fields are ignored. -/
def fromJson : Json → Option DeviceFrameHeader
  | .obj members => do
      let s ← required "s" members
      let k ← required "k" members
      let toConn ← optional "to" members
      let fromConn ← optional "from" members
      return { s, k, toConn, fromConn }
  | _ => none

end DeviceFrameHeader

/-! ## The engine -/

/-- `serde_json` on the JSON of a header: the value that is read, without fields that come twice,
and the message where none is. -/
structure SerdeJson where
  fromSlice : List UInt8 → Option Json
  message : List UInt8 → String

/-- `serde_json::to_vec`. -/
def headerBytes (fields : List (String × String)) : List UInt8 :=
  encodeUtf8 (DeviceFrameHeader.object fields).stringify

/-- The loop that writes the length. -/
def lengthGroups (n : Nat) : List UInt8 :=
  let byte := UInt8.ofNat (n &&& 0x7f)
  if _ended : n >>> 7 = 0 then [byte] else (byte ||| 0x80) :: lengthGroups (n >>> 7)
termination_by n
decreasing_by
  rw [Nat.shiftRight_eq_div_pow] at _ended ⊢
  omega

def encodeDeviceFrame (header : DeviceFrameHeader) (payload : List UInt8) : List UInt8 :=
  let json := headerBytes header.fields
  lengthGroups json.length ++ json ++ payload

/-- The loop that reads the length, in words of `width` bits: the offset after it and the
length. -/
def readLength (width : Nat) : List UInt8 → (offset len shift : Nat) → Except String (Nat × Nat)
  | [], _, _, _ => .error "device frame: truncated uleb128"
  | byte :: rest, offset, len, shift =>
      if 32 ≤ shift then .error "device frame: uleb128 overflow"
      else
        let len := len ||| ((byte &&& 0x7f).toNat <<< shift) % 2 ^ width
        if byte &&& 0x80 = 0 then .ok (offset + 1, len)
        else readLength width rest (offset + 1) len (shift + 7)

/-- `checked_add`. -/
def checkedAdd (width first second : Nat) : Option Nat :=
  if first + second < 2 ^ width then some (first + second) else none

def decodeDeviceFrame (serde : SerdeJson) (width : Nat) (bytes : List UInt8) :
    Except String (DeviceFrameHeader × List UInt8) := do
  let (offset, len) ← readLength width bytes 0 0 0
  match checkedAdd width offset len with
  | none => .error "device frame: header length overflow"
  | some headerEnd =>
      if bytes.length < headerEnd then .error "device frame: truncated header"
      else
        let header := (bytes.take headerEnd).drop offset
        match (serde.fromSlice header).bind DeviceFrameHeader.fromJson with
        | none => .error ("device frame: bad header JSON: " ++ serde.message header)
        | some decoded => .ok (decoded, bytes.drop headerEnd)

/-! ## The edge -/

/-- `JSON.parse`, and the writer and reader of `loro-protocol`. -/
structure EdgeCodecs where
  parse : String → Option Json
  pushVarString : String → List UInt8
  readVarString : List UInt8 → Option (String × List UInt8)

/-- `encodeDeviceFrame`; the fields stand in the order in which the header has them. -/
def EdgeCodecs.encodeDeviceFrame (codecs : EdgeCodecs) (fields : List (String × String))
    (payload : List UInt8) : List UInt8 :=
  codecs.pushVarString (String.ofList (DeviceFrameHeader.object fields).stringify) ++ payload

/-- `decodeDeviceFrame`. -/
def EdgeCodecs.decodeDeviceFrame (codecs : EdgeCodecs) (bytes : List UInt8) :
    Option (Json × List UInt8) :=
  (codecs.readVarString bytes).bind fun (text, rest) =>
    (codecs.parse text).map fun header => (header, rest)

/-! ## The length in groups -/

theorem and_low (byte : UInt8) : (byte &&& 0x7f).toNat = byte.toNat % 128 := by
  exact Nat.and_two_pow_sub_one_eq_mod byte.toNat 7

theorem and_high (byte : UInt8) : byte &&& 0x80 = 0 ↔ byte.toNat < 128 := by
  have bit : ∀ n < 256, (UInt8.ofNat n &&& 0x80 = 0 ↔ n < 128) := by decide +kernel
  have here := bit byte.toNat byte.toNat_lt
  rwa [UInt8.ofNat_toNat] at here

theorem or_high (n : Nat) :
    UInt8.ofNat (n &&& 0x7f) ||| 0x80 = UInt8.ofNat (n % 128 + 128) := by
  have byte : ∀ m < 128, UInt8.ofNat m ||| 0x80 = UInt8.ofNat (m + 128) := by decide +kernel
  rw [show n &&& 0x7f = n % 128 from Nat.and_two_pow_sub_one_eq_mod n 7]
  exact byte _ (Nat.mod_lt _ (by decide))

theorem lengthGroups_eq (n : Nat) : lengthGroups n = Leb128.encode n := by
  induction n using Nat.strongRecOn with
  | ind n ih =>
      rw [lengthGroups, Leb128.encode]
      simp only [Nat.shiftRight_eq_div_pow, dite_eq_ite, or_high]
      by_cases small : n < 128
      · have low : n &&& 0x7f = n := by
          rw [show n &&& 0x7f = n % 128 from Nat.and_two_pow_sub_one_eq_mod n 7]
          omega
        rw [if_pos (by omega), if_pos small, low]
      · rw [if_neg (by omega), if_neg small, ih _ (by omega)]

/-- A number in groups, at a shift, is the `or` of its lowest group and the others. -/
theorem shiftLeft_groups (low n shift : Nat) (small : low < 128) :
    (low + 128 * n) <<< shift = low <<< shift ||| n <<< (shift + 7) := by
  have join : low + 128 * n = low ||| n <<< 7 := by
    rw [Nat.or_comm, ← Nat.shiftLeft_add_eq_or_of_lt (by simpa using small), Nat.shiftLeft_eq]
    ring
  rw [join, Nat.shiftLeft_or_distrib, ← Nat.shiftLeft_add, Nat.add_comm 7]

/-- What the loop makes of a length that ends after some groups. -/
theorem readLength_of_decode {width : Nat} {bytes rest : List UInt8} {n : Nat}
    (read : Leb128.decode bytes = some (n, rest)) (offset len group : Nat) :
    readLength width bytes offset len (7 * group) =
      if group + (bytes.length - rest.length) ≤ 5 then
        .ok (offset + (bytes.length - rest.length), len ||| (n <<< (7 * group)) % 2 ^ width)
      else .error "device frame: uleb128 overflow" := by
  induction bytes generalizing n offset len group with
  | nil => cases read
  | cons byte bytes ih =>
      rw [Leb128.decode] at read
      rw [readLength]
      have grow : 7 * group + 7 = 7 * (group + 1) := by ring
      split at read
      · rename_i small
        cases read
        have one : (byte :: rest).length - rest.length = 1 := by simp
        have low : (byte &&& 0x7f).toNat = byte.toNat := by
          rw [and_low]
          omega
        simp only [one, (and_high byte).mpr small, low, ↓reduceIte]
        by_cases many : 32 ≤ 7 * group
        · rw [if_pos many, if_neg (by omega)]
        · rw [if_neg many, if_pos (by omega)]
      · rename_i big
        obtain ⟨⟨m, left⟩, inside, same⟩ := Option.map_eq_some_iff.mp read
        cases same
        obtain ⟨groups, split, some_group, -⟩ := Leb128.exists_groups inside
        have count : bytes.length - rest.length = groups.length := by
          rw [split, List.length_append]
          omega
        have more : (byte :: bytes).length - rest.length = groups.length + 1 := by
          rw [List.length_cons, split, List.length_append]
          omega
        have continues : ¬ byte &&& 0x80 = 0 := fun low => big ((and_high byte).mp low)
        have high : (byte &&& 0x7f).toNat = byte.toNat - 128 := by
          have bound := byte.toNat_lt
          rw [and_low]
          omega
        rw [if_neg continues, grow, ih inside, count, more, high]
        by_cases many : 32 ≤ 7 * group
        · rw [if_pos many, if_neg (by omega)]
        · rw [if_neg many]
          by_cases fits : group + 1 + groups.length ≤ 5
          · rw [if_pos fits, if_pos (by omega)]
            have bound := byte.toNat_lt
            rw [shiftLeft_groups _ _ _ (by omega), Nat.or_mod_two_pow, grow, Nat.or_assoc,
              Nat.add_assoc, Nat.add_comm 1]
          · rw [if_neg fits, if_neg (by omega)]

/-- The engine reads no length where no group ends. -/
theorem readLength_of_none {width : Nat} {bytes : List UInt8} (missing : Leb128.decode bytes = none)
    (offset len shift : Nat) : ∃ message, readLength width bytes offset len shift = .error message := by
  induction bytes generalizing offset len shift with
  | nil => exact ⟨_, rfl⟩
  | cons byte bytes ih =>
      rw [Leb128.decode] at missing
      split at missing
      · cases missing
      · rename_i big
        have continues : ¬ byte &&& 0x80 = 0 := fun low => big ((and_high byte).mp low)
        rw [readLength]
        split
        · exact ⟨_, rfl⟩
        · exact ih (Option.map_eq_none_iff.mp missing) _ _ _

/-- The length that is read, cut off at the width of a word. -/
theorem readLength_eq {width : Nat} {bytes rest : List UInt8} {n : Nat}
    (read : Leb128.decode bytes = some (n, rest)) :
    readLength width bytes 0 0 0 =
      if bytes.length - rest.length ≤ 5 then .ok (bytes.length - rest.length, n % 2 ^ width)
      else .error "device frame: uleb128 overflow" := by
  simpa using @readLength_of_decode width _ _ _ read 0 0 0

/-! ## Headers as objects -/

section Fields

variable {fields : List (String × String)} {header : DeviceFrameHeader}

theorem nodup_fields (header : DeviceFrameHeader) : (header.fields.map Prod.fst).Nodup := by
  cases to_conn : header.toConn <;> cases from_conn : header.fromConn <;>
    simp [DeviceFrameHeader.fields, to_conn, from_conn]

theorem lookup_of_perm (same : fields.Perm header.fields) (name : String) :
    fields.lookup name = header.fields.lookup name := by
  have distinct := nodup_fields header
  have distinct' : (fields.map Prod.fst).Nodup := (same.map Prod.fst).nodup_iff.mpr distinct
  refine Option.ext fun value => ?_
  rw [Assoc.lookup_eq_some_iff_mem distinct, Assoc.lookup_eq_some_iff_mem distinct']
  exact same.mem_iff

/-- The fields of a header are read in any order. -/
theorem fromJson_object (same : fields.Perm header.fields) :
    DeviceFrameHeader.fromJson (DeviceFrameHeader.object fields) = some header := by
  have found : ∀ name, (fields.map fun field => (field.1, Json.str field.2)).lookup name =
      (header.fields.lookup name).map Json.str := by
    intro name
    rw [Assoc.lookup_map, lookup_of_perm same]
  rcases header with ⟨s, k, to_conn, from_conn⟩
  simp only [DeviceFrameHeader.object, DeviceFrameHeader.fromJson, DeviceFrameHeader.required,
    DeviceFrameHeader.optional, found]
  cases to_conn <;> cases from_conn <;>
    simp [DeviceFrameHeader.fields, Json.asString, List.lookup_cons]

theorem length_encodeUtf8 (chars : List Char) : (encodeUtf8 chars).length = bytes chars := by
  induction chars with
  | nil => rfl
  | cons char chars ih =>
      rw [encodeUtf8_cons, List.length_append, ih]
      simp

/-- The order of the fields makes no difference to the length. -/
theorem length_headerBytes (same : fields.Perm header.fields) :
    (headerBytes fields).length = (headerBytes header.fields).length := by
  have some_field : header.fields ≠ [] := by simp [DeviceFrameHeader.fields]
  have some_field' : fields ≠ [] := fun none => some_field (by
    rw [none] at same
    exact same.nil_eq.symm)
  rw [headerBytes, headerBytes, length_encodeUtf8, length_encodeUtf8, ← Json.byteLength_eq,
    ← Json.byteLength_eq, DeviceFrameHeader.object, DeviceFrameHeader.object,
    Json.byteLength_obj (by simpa using some_field'), Json.byteLength_obj (by simpa using some_field)]
  rw [((same.map _).map _).sum_eq]

end Fields

/-! ## Both sides -/

/-- JSON that is printed for a header is read as it was. -/
def SerdeJson.Lawful (serde : SerdeJson) : Prop :=
  ∀ fields, (fields.map Prod.fst).Nodup →
    serde.fromSlice (headerBytes fields) = some (DeviceFrameHeader.object fields)

/-- The edge reads what is printed, and its texts are their length in groups and their UTF-8. -/
structure EdgeCodecs.Lawful (codecs : EdgeCodecs) : Prop where
  parse : ∀ fields, (fields.map Prod.fst).Nodup →
    codecs.parse (String.ofList (DeviceFrameHeader.object fields).stringify) =
      some (DeviceFrameHeader.object fields)
  push : ∀ text, codecs.pushVarString text =
    Leb128.encode (encodeUtf8 text.toList).length ++ encodeUtf8 text.toList
  read : ∀ text rest, codecs.readVarString (Leb128.encode (encodeUtf8 text.toList).length ++
    encodeUtf8 text.toList ++ rest) = some (text, rest)

/-- Each side reads its own frame and that of the other side. -/
structure RoundTrip (serde : SerdeJson) (codecs : EdgeCodecs) (width : Nat)
    (header : DeviceFrameHeader) (fields : List (String × String)) (payload : List UInt8) :
    Prop where
  engine : decodeDeviceFrame serde width (encodeDeviceFrame header payload) = .ok (header, payload)
  edge : codecs.decodeDeviceFrame (codecs.encodeDeviceFrame fields payload) =
    some (DeviceFrameHeader.object fields, payload)
  toEdge : codecs.decodeDeviceFrame (encodeDeviceFrame header payload) =
    some (DeviceFrameHeader.object header.fields, payload)
  toEngine : decodeDeviceFrame serde width (codecs.encodeDeviceFrame fields payload) =
    .ok (header, payload)

/-- The shifts that `readLength` makes. -/
def shiftsOf : List UInt8 → Nat → List Nat
  | [], _ => []
  | byte :: rest, shift =>
      if 32 ≤ shift then []
      else shift :: if byte &&& 0x80 = 0 then [] else shiftsOf rest (shift + 7)

/-- What the engine reads lies inside the frame, and no word overflows. -/
structure Safe (serde : SerdeJson) (width : Nat) (bytes : List UInt8) : Prop where
  inside : ∀ header payload, decodeDeviceFrame serde width bytes = .ok (header, payload) →
    ∃ offset len, offset + len ≤ bytes.length ∧ offset + len < 2 ^ width ∧
      (serde.fromSlice ((bytes.drop offset).take len)).bind DeviceFrameHeader.fromJson =
        some header ∧ payload = bytes.drop (offset + len)
  shifts : ∀ shift ∈ shiftsOf bytes 0, shift < width
  length : ∀ offset len, readLength width bytes 0 0 0 = .ok (offset, len) →
    ∃ rest, Leb128.decode bytes = some (len, rest) ∧ bytes.length - rest.length = offset

section Both

variable {serde : SerdeJson} {codecs : EdgeCodecs} {width : Nat} {header : DeviceFrameHeader}
  {fields : List (String × String)} {payload bytes : List UInt8}

theorem encodeDeviceFrame_eq :
    encodeDeviceFrame header payload = Leb128.encode (headerBytes header.fields).length ++
      headerBytes header.fields ++ payload := by
  rw [encodeDeviceFrame, lengthGroups_eq]

theorem edge_encodeDeviceFrame_eq (lawful : codecs.Lawful) :
    codecs.encodeDeviceFrame fields payload =
      Leb128.encode (headerBytes fields).length ++ headerBytes fields ++ payload := by
  rw [EdgeCodecs.encodeDeviceFrame, lawful.push, String.toList_ofList]
  rfl

/-- The engine reads a frame whose length has at most five groups. -/
theorem decode_frame_iff (serdeReads : serde.Lawful) (same : fields.Perm header.fields)
    (held : (Leb128.encode (headerBytes fields).length ++ headerBytes fields ++
      payload).length < 2 ^ width) :
    decodeDeviceFrame serde width (Leb128.encode (headerBytes fields).length ++
        headerBytes fields ++ payload) = .ok (header, payload) ↔
      (headerBytes header.fields).length < 2 ^ 35 := by
  have read := Leb128.decode_encode (headerBytes fields).length (headerBytes fields ++ payload)
  rw [← List.append_assoc] at read
  have groups : (Leb128.encode (headerBytes fields).length ++ headerBytes fields ++
      payload).length - (headerBytes fields ++ payload).length =
        (Leb128.encode (headerBytes fields).length).length := by
    rw [List.append_assoc, List.length_append]
    omega
  have small : (Leb128.encode (headerBytes fields).length).length ≤ 5 ↔
      (headerBytes header.fields).length < 2 ^ 35 := by
    rw [Leb128.length_encode_le_iff, length_headerBytes same]
    norm_num
  have whole : readLength width _ 0 0 0 = _ := readLength_eq read
  rw [groups] at whole
  rw [← small, decodeDeviceFrame, whole]
  split
  · rename_i fits
    simp only [fits, iff_true]
    simp only [List.length_append] at held
    have length : (headerBytes fields).length % 2 ^ width = (headerBytes fields).length :=
      Nat.mod_eq_of_lt (by omega)
    have header_text : ((Leb128.encode (headerBytes fields).length ++ headerBytes fields ++
        payload).take ((Leb128.encode (headerBytes fields).length).length +
          (headerBytes fields).length)).drop (Leb128.encode (headerBytes fields).length).length =
        headerBytes fields := by
      rw [← List.length_append, List.take_left, List.drop_left]
    have rest : (Leb128.encode (headerBytes fields).length ++ headerBytes fields ++
        payload).drop ((Leb128.encode (headerBytes fields).length).length +
          (headerBytes fields).length) = payload := by
      rw [← List.length_append, List.drop_left]
    have distinct : (fields.map Prod.fst).Nodup :=
      (same.map Prod.fst).nodup_iff.mpr (nodup_fields header)
    have found : (serde.fromSlice (headerBytes fields)).bind DeviceFrameHeader.fromJson =
        some header := by
      rw [serdeReads fields distinct]
      exact fromJson_object same
    simp only [bind, Except.bind, length, checkedAdd]
    rw [if_pos (by omega)]
    simp only [List.length_append]
    rw [if_neg (by omega), header_text, rest, found]
  · rename_i long
    simp only [long, iff_false]
    exact fun read => by cases read

/-- The edge reads every frame. -/
theorem edge_decode_frame (lawful : codecs.Lawful) (same : fields.Perm header.fields) :
    codecs.decodeDeviceFrame (Leb128.encode (headerBytes fields).length ++ headerBytes fields ++
      payload) = some (DeviceFrameHeader.object fields, payload) := by
  have distinct : (fields.map Prod.fst).Nodup :=
    (same.map Prod.fst).nodup_iff.mpr (nodup_fields header)
  have read := lawful.read (String.ofList (DeviceFrameHeader.object fields).stringify) payload
  rw [String.toList_ofList] at read
  rw [EdgeCodecs.decodeDeviceFrame, headerBytes, read, Option.bind_some]
  dsimp only
  rw [lawful.parse fields distinct]
  rfl

theorem roundTrip_iff (serdeReads : serde.Lawful) (lawful : codecs.Lawful)
    (same : fields.Perm header.fields)
    (held : (encodeDeviceFrame header payload).length < 2 ^ width)
    (received : (codecs.encodeDeviceFrame fields payload).length < 2 ^ width) :
    RoundTrip serde codecs width header fields payload ↔
      (headerBytes header.fields).length < 2 ^ 35 := by
  have engine : encodeDeviceFrame header payload = _ := encodeDeviceFrame_eq
  have edge : codecs.encodeDeviceFrame fields payload = _ := edge_encodeDeviceFrame_eq lawful
  have own := decode_frame_iff serdeReads (List.Perm.refl header.fields) (engine ▸ held)
  have other := decode_frame_iff serdeReads same (edge ▸ received)
  rw [← engine] at own
  rw [← edge] at other
  constructor
  · exact fun trip => own.mp trip.engine
  · intro short
    refine ⟨own.mpr short, ?_, ?_, other.mpr short⟩
    · rw [edge]
      exact edge_decode_frame lawful same
    · rw [engine]
      exact edge_decode_frame lawful (List.Perm.refl header.fields)

theorem lt_of_mem_shiftsOf {bytes : List UInt8} {start shift : Nat}
    (listed : shift ∈ shiftsOf bytes start) : shift < 32 := by
  induction bytes generalizing start with
  | nil => cases listed
  | cons byte bytes ih =>
      rw [shiftsOf] at listed
      split at listed
      · cases listed
      · rcases List.mem_cons.mp listed with rfl | listed
        · omega
        · split at listed
          · cases listed
          · exact ih listed

/-- What is decoded lies inside the frame. -/
theorem inside_of_decode {payload : List UInt8}
    (decoded : decodeDeviceFrame serde width bytes = .ok (header, payload)) :
    ∃ offset len, offset + len ≤ bytes.length ∧ offset + len < 2 ^ width ∧
      (serde.fromSlice ((bytes.drop offset).take len)).bind DeviceFrameHeader.fromJson =
        some header ∧ payload = bytes.drop (offset + len) := by
  rw [decodeDeviceFrame] at decoded
  cases read : readLength width bytes 0 0 0 with
  | error message =>
      rw [read] at decoded
      cases decoded
  | ok position =>
      obtain ⟨offset, len⟩ := position
      rw [read] at decoded
      simp only [bind, Except.bind] at decoded
      cases sum : checkedAdd width offset len with
      | none =>
          rw [sum] at decoded
          cases decoded
      | some headerEnd =>
          rw [sum] at decoded
          dsimp only at decoded
          rw [checkedAdd] at sum
          split at sum
          · rename_i fits
            cases sum
            split at decoded
            · cases decoded
            · rename_i long
              split at decoded
              · cases decoded
              · rename_i found
                cases decoded
                refine ⟨offset, len, by omega, fits, ?_, rfl⟩
                rwa [List.drop_take, Nat.add_sub_cancel_left] at found
          · cases sum

theorem safe_iff (word : 32 ≤ width) : Safe serde width bytes ↔
    ∀ n rest, Leb128.decode bytes = some (n, rest) → bytes.length - rest.length ≤ 5 →
      n < 2 ^ width := by
  constructor
  · intro safe n rest read few
    have whole : readLength width _ 0 0 0 = _ := readLength_eq read
    rw [if_pos few] at whole
    obtain ⟨rest', read', -⟩ := safe.length _ _ whole
    rw [read, Option.some.injEq, Prod.mk.injEq] at read'
    rw [read'.1]
    exact Nat.mod_lt n (Nat.two_pow_pos width)
  · intro bounded
    refine ⟨fun header payload decoded => inside_of_decode decoded,
      fun shift listed => (lt_of_mem_shiftsOf listed).trans_le word, fun offset len read => ?_⟩
    cases decoded : Leb128.decode bytes with
    | none =>
        obtain ⟨message, failed⟩ := readLength_of_none decoded 0 0 0
        rw [failed] at read
        cases read
    | some found =>
        obtain ⟨n, rest⟩ := found
        rw [readLength_eq decoded] at read
        split at read
        · rename_i few
          cases read
          rw [Nat.mod_eq_of_lt (bounded n rest decoded few)]
          exact ⟨rest, rfl, rfl⟩
        · cases read

end Both

/-- Both sides read the frames of both sides exactly if the header is shorter than 2³⁵ bytes, and
the engine reads a frame without overflow exactly if a length of five groups fits in a word. -/
theorem device_frames_alike_iff (serde : SerdeJson) (codecs : EdgeCodecs)
    (serdeReads : serde.Lawful) (lawful : codecs.Lawful) (width : Nat)
    (word : width = 32 ∨ width = 64) (header : DeviceFrameHeader)
    (fields : List (String × String)) (same : fields.Perm header.fields)
    (payload bytes : List UInt8) (held : (encodeDeviceFrame header payload).length < 2 ^ width)
    (received : (codecs.encodeDeviceFrame fields payload).length < 2 ^ width) :
    (RoundTrip serde codecs width header fields payload ↔
        (headerBytes header.fields).length < 2 ^ 35) ∧
      (Safe serde width bytes ↔
        ∀ n rest, Leb128.decode bytes = some (n, rest) → bytes.length - rest.length ≤ 5 →
          n < 2 ^ width) :=
  ⟨roundTrip_iff serdeReads lawful same held received, safe_iff (by omega)⟩

/-- A reader of headers. -/
def plainSerde : SerdeJson where
  fromSlice := Json.readBytes
  message _ := "expected value"

/-- A reader and a writer as the edge has them. -/
def plainCodecs : EdgeCodecs where
  parse text := Json.read text.toList
  pushVarString text :=
    Leb128.encode (encodeUtf8 text.toList).length ++ encodeUtf8 text.toList
  readVarString bytes :=
    (Leb128.decode bytes).bind fun (n, rest) =>
      if n ≤ rest.length then
        (decodeUtf8 (rest.take n)).map fun chars => (String.ofList chars, rest.drop n)
      else none

theorem plain_object (fields : List (String × String)) :
    (DeviceFrameHeader.object fields).Plain := by
  induction fields with
  | nil => trivial
  | cons field fields ih => exact ⟨trivial, ih⟩

theorem plainSerde_lawful : plainSerde.Lawful :=
  fun fields _ => Json.readBytes_stringify (plain_object fields)

theorem plainCodecs_lawful : plainCodecs.Lawful where
  parse fields _ := by
    rw [plainCodecs]
    dsimp only
    rw [String.toList_ofList]
    exact Json.read_stringify (plain_object fields)
  push _ := rfl
  read text rest := by
    rw [plainCodecs]
    dsimp only
    rw [List.append_assoc, Leb128.decode_encode, Option.bind_some]
    rw [if_pos (by simp), List.take_left, List.drop_left, decodeUtf8_encodeUtf8, Option.map_some,
      String.ofList_toList]

theorem termHeader_length :
    (headerBytes [("s", "term-42"), ("k", "term"), ("to", "conn-9")]).length = 40 := by
  decide +kernel

/-- A header with a routing target, and a payload of three bytes. -/
theorem device_frames_alike_term :
    RoundTrip plainSerde plainCodecs 32 ⟨"term-42", "term", some "conn-9", none⟩
        [("s", "term-42"), ("k", "term"), ("to", "conn-9")] [1, 2, 3] ∧
      Safe plainSerde 32 [1, 2, 3] := by
  have groups := (Leb128.length_encode_le_iff 40 0).mpr (by decide)
  obtain ⟨roundTrip, safe⟩ := device_frames_alike_iff plainSerde plainCodecs plainSerde_lawful
    plainCodecs_lawful 32 (.inl rfl) ⟨"term-42", "term", some "conn-9", none⟩
    [("s", "term-42"), ("k", "term"), ("to", "conn-9")] (List.Perm.refl _) [1, 2, 3] [1, 2, 3]
    (by
      rw [encodeDeviceFrame_eq, List.length_append, List.length_append]
      change (Leb128.encode (headerBytes [("s", "term-42"), ("k", "term"),
        ("to", "conn-9")]).length).length + (headerBytes [("s", "term-42"), ("k", "term"),
          ("to", "conn-9")]).length + 3 < _
      rw [termHeader_length]
      omega)
    (by
      rw [edge_encodeDeviceFrame_eq plainCodecs_lawful, List.length_append, List.length_append,
        termHeader_length]
      simp only [List.length_cons, List.length_nil]
      omega)
  refine ⟨roundTrip.mpr ?_, safe.mpr fun n rest read _ => ?_⟩
  · decide
  · have one : Leb128.decode [1, 2, 3] = some (1, [2, 3]) := by rfl
    obtain ⟨rfl, -⟩ := Prod.mk.inj (Option.some.inj read)
    decide

/-- On a word of 32 bits a length of 2³² + 17 is read as 17. -/
theorem long_length_wraps :
    ¬ Safe plainSerde 32 ([0x91, 0x80, 0x80, 0x80, 0x10] ++
      headerBytes [("s", "a"), ("k", "b")]) := by
  intro safe
  obtain ⟨rest, read, -⟩ := safe.length 5 17 (by rfl)
  simp [Leb128.decode] at read

end Zeron.Rpc
