import Zeron.Data.Assoc
import Zeron.Data.SortBy
import Zeron.Data.Text
import Zeron.Data.Utf8

/-!
# Uploads

A file arrives as chunks of base64 text.  Each chunk is staged in a slot of its own, and a
commit joins the slots into a file that is never written again.  The sizes of the slots are
also kept in memory, where a restart forgets them.
-/

namespace Zeron.Uploads

open Zeron.Data

/-- `MAX_BYTES`. -/
def maxBytes : Nat := 32 * 1024 * 1024

/-- `MAX_CHUNKS`. -/
def maxChunks : Nat := 8192

structure ChunkSizes where
  slots : List (Nat × Nat)
  total : Nat
  deriving DecidableEq

/-- The chunk files of one upload, by the sequence number in their names. -/
abbrev ChunkFiles := List (Nat × List Char)

structure UploadsInner where
  /-- The directories of `tmp`. -/
  staged : List (String × ChunkFiles)
  sizes : List (String × ChunkSizes)
  /-- The files of the uploads directory. -/
  published : List (String × List UInt8)
  deriving DecidableEq

def UploadsInner.empty : UploadsInner where
  staged := []
  sizes := []
  published := []

/-- The length of a chunk in bytes. -/
def chunkLength (data : List Char) : Nat :=
  (encodeUtf8 data).length

/-- The sizes as they are read from the directory of an upload. -/
def ChunkSizes.ofFiles (files : ChunkFiles) : ChunkSizes where
  slots := files.map fun file => (file.1, chunkLength file.2)
  total := (files.map fun file => chunkLength file.2).sum

def isAsciiAlphanumeric (c : Char) : Bool :=
  decide ('a' ≤ c ∧ c ≤ 'z') || decide ('A' ≤ c ∧ c ≤ 'Z') || decide ('0' ≤ c ∧ c ≤ '9')

/-- The name of the directory of an upload. -/
def stagingDir (uploadId : String) : Except String String :=
  if uploadId ≠ "" ∧ (encodeUtf8 uploadId.toList).length ≤ 64 ∧
      uploadId.toList.all (fun c => isAsciiAlphanumeric c || c == '-' || c == '_') then
    .ok uploadId
  else
    .error "Invalid upload id"

/-- `Path::file_name`: the last component, unless it is the parent. -/
def lastComponent (path : List Char) : Option (List Char) :=
  match ((path.splitOn '/').filter fun part => decide (part ≠ [] ∧ part ≠ ['.'])).getLast? with
  | some ['.', '.'] => none
  | last => last

def sanitize (fileName : String) : String :=
  let base := (lastComponent fileName.toList).getD []
  let cleaned := base.map fun c =>
    if isAsciiAlphanumeric c || c == '.' || c == '-' || c == '_' then c else '_'
  let tail := (cleaned.reverse.take 80).reverse
  if tail = [] then "upload" else String.ofList tail

/-- The name of the published file, with the digest of the upload's id. -/
def pendingTarget (digest : String → String) (uploadId fileName : String) : String :=
  "v2-" ++ digest uploadId ++ "-" ++ sanitize fileName

/-- The upload's directory and its sizes are gone. -/
def UploadsInner.discard (uploads : UploadsInner) (uploadId : String) : UploadsInner :=
  { uploads with
    staged := Assoc.drop uploads.staged uploadId
    sizes := Assoc.drop uploads.sizes uploadId }

/-- `sweep`, over the uploads whose newest chunk is too old, and the sizes that are kept
after it. -/
def UploadsInner.sweep (uploads : UploadsInner) (expired : List String) : UploadsInner :=
  let staged := uploads.staged.filter fun entry => decide (entry.1 ∉ expired)
  { uploads with
    staged
    sizes := uploads.sizes.filter fun entry => (staged.lookup entry.1).isSome }

/-- A sweep, if one is due. -/
def UploadsInner.sweepDue (uploads : UploadsInner) : Option (List String) → UploadsInner
  | some expired => uploads.sweep expired
  | none => uploads

/-- `append`.  A fault is one in writing the file of the chunk. -/
def UploadsInner.append (uploads : UploadsInner) (due : Option (List String)) (uploadId : String)
    (data : List Char) (seq : Option Nat) (fault : Option String) :
    Except String Unit × UploadsInner :=
  match stagingDir uploadId with
  | .error message => (.error message, uploads)
  | .ok dir =>
      let uploads := uploads.sweepDue due
      let files := (uploads.staged.lookup dir).getD []
      let sizes := (uploads.sizes.lookup uploadId).getD (ChunkSizes.ofFiles files)
      let uploads :=
        { uploads with
          staged := Assoc.put uploads.staged dir files
          sizes := Assoc.put uploads.sizes uploadId sizes }
      let place :=
        match seq with
        | some seq => seq
        | none =>
            match (sizes.slots.map Prod.fst).max? with
            | some last => last + 1
            | none => 0
      if maxChunks ≤ place then (.error "Invalid chunk index", uploads)
      else
        let staged := sizes.total - (sizes.slots.lookup place).getD 0
        if maxBytes < (staged + chunkLength data) * 3 / 4 then
          (.error "Upload too large", uploads.discard uploadId)
        else
          match fault with
          | some message => (.error message, uploads)
          | none =>
              (.ok (),
                { uploads with
                  staged := Assoc.put uploads.staged dir (Assoc.put files place data)
                  sizes := Assoc.put uploads.sizes uploadId
                    { slots := Assoc.put sizes.slots place (chunkLength data)
                      total := staged + chunkLength data } })

section

variable (decode : List UInt8 → Except String (List UInt8))

/-- The loop of `commit` over the chunks that are left, with the characters that are not
decoded yet and the bytes that are written. -/
def assemble (place : Nat) (carry written : List UInt8) :
    List (Nat × List Char) → Except String (List UInt8)
  | [] => .ok written
  | (seq, data) :: parts =>
      if seq ≠ place then .error "Upload is missing a chunk"
      else
        let carry := carry ++ encodeUtf8 (trim data)
        let count := if parts = [] then carry.length else (carry.length - 4) / 4 * 4
        if 0 < count then
          match decode (carry.take count) with
          | .error message => .error ("upload is not valid base64: " ++ message)
          | .ok bytes =>
              if maxBytes < (written ++ bytes).length then .error "Upload too large"
              else assemble (place + 1) (carry.drop count) (written ++ bytes) parts
        else assemble (place + 1) carry written parts

/-- What can go wrong with the new file. -/
inductive Fault where
  /-- It is not made, written or given its name. -/
  | target (message : String)
  /-- It has its name, and the directory is not synced. -/
  | directory (message : String)
  deriving DecidableEq

variable (digest : String → String)

def UploadsInner.commit (uploads : UploadsInner) (uploadId fileName : String)
    (fault : Option Fault) : Except String String × UploadsInner :=
  match stagingDir uploadId with
  | .error message => (.error message, uploads)
  | .ok dir =>
      let path := pendingTarget digest uploadId fileName
      if (uploads.published.lookup path).isSome then (.ok path, uploads.discard uploadId)
      else
        let parts := (uploads.staged.lookup dir).getD []
        if parts = [] then (.error "Unknown or expired upload", uploads)
        else if maxChunks < parts.length then (.error "Too many upload chunks", uploads)
        else
          match assemble decode 0 [] [] (sortBy Prod.fst parts) with
          | .error message => (.error message, uploads)
          | .ok bytes =>
              match fault with
              | some (.target message) => (.error message, uploads)
              | some (.directory message) =>
                  (.error message,
                    { uploads with published := Assoc.put uploads.published path bytes })
              | none =>
                  (.ok path,
                    { uploads with
                      published := Assoc.put uploads.published path bytes }.discard uploadId)

/-- A call, or a restart of the process. -/
inductive Event where
  | append (due : Option (List String)) (uploadId : String) (data : List Char) (seq : Option Nat)
      (fault : Option String)
  | commit (uploadId fileName : String) (fault : Option Fault)
  | restart

def UploadsInner.step (uploads : UploadsInner) : Event → UploadsInner
  | .append due uploadId data seq fault => (uploads.append due uploadId data seq fault).2
  | .commit uploadId fileName fault =>
      (uploads.commit decode digest uploadId fileName fault).2
  | .restart => { uploads with sizes := [] }

def UploadsInner.run (uploads : UploadsInner) (events : List Event) : UploadsInner :=
  events.foldl (UploadsInner.step decode digest) uploads

end

end Zeron.Uploads
