import Zeron.Data.Base64
import Zeron.Uploads.Staging

/-!
# What a commit publishes

The loop decodes whole groups of four characters as they become complete and keeps the rest,
so the boundaries of the chunks do not show.  Only a group that is decoded before the last
chunk has to be free of padding for that.
-/

namespace Zeron.Uploads

open Zeron.Data
open Base64 (Lawful pad)

/-- The text of a chunk without the blanks around it. -/
def chunkText (data : List Char) : List UInt8 :=
  encodeUtf8 (trim data)

/-- The base64 text of an upload. -/
def joined (chunks : List (List Char)) : List UInt8 :=
  chunks.flatMap chunkText

/-- How many characters are decoded before the last chunk. -/
def settled (chunks : List (List Char)) : Nat :=
  ((joined chunks.dropLast).length - 4) / 4 * 4

/-- No group that is decoded before the last chunk is padded. -/
def Plain (chunks : List (List Char)) : Prop :=
  pad ∉ (joined chunks).take (settled chunks)

/-- Chunks in the slots from a number on. -/
def numbered (place : Nat) : List (List Char) → List (Nat × List Char)
  | [] => []
  | data :: chunks => (place, data) :: numbered (place + 1) chunks

variable {chunks : List (List Char)} {bytes : List UInt8} {data : List Char}

section

variable {decode : List UInt8 → Except String (List UInt8)}

/-! ## The loop -/

theorem numbered_ne_nil (some_chunk : chunks ≠ []) (place : Nat) : numbered place chunks ≠ [] := by
  cases chunks with
  | nil => exact absurd rfl some_chunk
  | cons data chunks => simp [numbered]

@[simp]
theorem joined_cons (data : List Char) (chunks : List (List Char)) :
    joined (data :: chunks) = chunkText data ++ joined chunks :=
  List.flatMap_cons

@[simp]
theorem joined_nil : joined [] = [] := rfl

variable {written : List UInt8}

/-- The output stays within the limit as long as the text does. -/
theorem length_written_le (lawful : Lawful decode) {text : List UInt8}
    (decoded : decode text = .ok bytes)
    (fits : 4 * written.length + 3 * text.length < 4 * (maxBytes + 1)) :
    ¬ maxBytes < (written ++ bytes).length := by
  have short := lawful.short text bytes decoded
  rw [List.length_append]
  omega

variable {carry : List UInt8}

/-- The last chunk takes all that is left. -/
theorem assemble_last (lawful : Lawful decode) (place : Nat)
    (fits : 4 * written.length + 3 * (carry ++ chunkText data).length < 4 * (maxBytes + 1))
    (result : List UInt8) :
    assemble decode place carry written [(place, data)] = .ok result ↔
      ∃ bytes, decode (carry ++ chunkText data) = .ok bytes ∧ result = written ++ bytes := by
  simp only [assemble, ne_eq, not_true_eq_false, if_false, if_true]
  rw [← chunkText]
  generalize carry ++ chunkText data = text at fits ⊢
  rw [List.take_length]
  split
  · cases decoded : decode text with
    | error message => simp
    | ok bytes =>
        have small := length_written_le lawful decoded fits
        dsimp only
        rw [if_neg small]
        simp [eq_comm]
  · rename_i empty
    have none_left : text = [] := List.eq_nil_of_length_eq_zero (Nat.le_zero.mp (not_lt.mp empty))
    subst none_left
    simp [lawful.nil, eq_comm]

/-- What a chunk before the last one leaves undecoded. -/
theorem assemble_more (place : Nat) {parts : List (Nat × List Char)} (more : parts ≠ []) :
    assemble decode place carry written ((place, data) :: parts) =
      let text := carry ++ chunkText data
      let count := (text.length - 4) / 4 * 4
      if 0 < count then
        match decode (text.take count) with
        | .error message => .error ("upload is not valid base64: " ++ message)
        | .ok bytes =>
            if maxBytes < (written ++ bytes).length then .error "Upload too large"
            else assemble decode (place + 1) (text.drop count) (written ++ bytes) parts
      else assemble decode (place + 1) text written parts := by
  simp only [assemble, more, ne_eq]
  rfl

/-- A text whose first groups have no padding is decoded piece by piece. -/
theorem decoded_append_iff (lawful : Lawful decode) {first second : List UInt8}
    (whole : 4 ∣ first.length) (plain : pad ∉ first) {result : List UInt8} :
    (∃ bytes, decode (first ++ second) = .ok bytes ∧ result = written ++ bytes) ↔
      ∃ early, decode first = .ok early ∧
        ∃ late, decode second = .ok late ∧ result = written ++ early ++ late := by
  constructor
  · rintro ⟨bytes, decoded, rfl⟩
    rcases (lawful.append first second bytes whole plain).mp decoded with
      ⟨early, late, before, after, rfl⟩
    exact ⟨early, before, late, after, (List.append_assoc written early late).symm⟩
  · rintro ⟨early, before, late, after, rfl⟩
    have decoded := (lawful.append first second _ whole plain).mpr
      ⟨early, late, before, after, rfl⟩
    exact ⟨early ++ late, decoded, List.append_assoc written early late⟩

theorem assemble_eq_ok_iff (lawful : Lawful decode) (some_chunk : chunks ≠ []) (place : Nat)
    (plain : pad ∉ (carry ++ joined chunks).take
      ((carry.length + (joined chunks.dropLast).length - 4) / 4 * 4))
    (fits : 4 * written.length + 3 * (carry ++ joined chunks).length < 4 * (maxBytes + 1))
    (result : List UInt8) :
    assemble decode place carry written (numbered place chunks) = .ok result ↔
      ∃ bytes, decode (carry ++ joined chunks) = .ok bytes ∧ result = written ++ bytes := by
  induction chunks generalizing place carry written with
  | nil => exact absurd rfl some_chunk
  | cons data chunks ih =>
      by_cases more : chunks = []
      · subst more
        have fits : 4 * written.length + 3 * (carry ++ chunkText data).length <
            4 * (maxBytes + 1) := by
          simpa using fits
        simpa [numbered] using assemble_last lawful place fits result
      · rw [numbered, assemble_more place (numbered_ne_nil more (place + 1))]
        rw [List.dropLast_cons_of_ne_nil more, joined_cons] at plain
        rw [joined_cons, ← List.append_assoc] at plain fits ⊢
        dsimp only
        rw [List.length_append, ← Nat.add_assoc, ← List.length_append] at plain
        generalize carry ++ chunkText data = text at plain fits ⊢
        generalize counted : (text.length - 4) / 4 * 4 = count
        -- The text splits where the decoded groups end.
        have decoded_length : (text.take count).length = count := by
          rw [List.length_take]
          omega
        have left_length : (text.drop count).length = text.length - count :=
          List.length_drop
        have split_text : text ++ joined chunks =
            text.take count ++ (text.drop count ++ joined chunks) := by
          rw [← List.append_assoc, List.take_append_drop]
        have places : (text.length + (joined chunks.dropLast).length - 4) / 4 * 4 =
            (text.take count).length +
              ((text.drop count).length + (joined chunks.dropLast).length - 4) / 4 * 4 := by
          omega
        have whole : 4 ∣ (text.take count).length := by omega
        rw [places, split_text, List.take_length_add_append, List.mem_append, not_or] at plain
        rw [split_text] at fits ⊢
        rw [decoded_append_iff lawful whole plain.1]
        split
        · cases decoded : decode (text.take count) with
          | error message => simp
          | ok bytes =>
              have short := lawful.short _ bytes decoded
              rw [List.length_append] at fits
              have small : ¬ maxBytes < (written ++ bytes).length :=
                length_written_le lawful decoded (by omega)
              have later_fits : 4 * (written ++ bytes).length +
                  3 * (text.drop count ++ joined chunks).length < 4 * (maxBytes + 1) := by
                rw [List.length_append]
                omega
              dsimp only
              rw [if_neg small, ih more (place + 1) plain.2 later_fits]
              simp
        · rename_i none_decoded
          have nothing : count = 0 := Nat.le_zero.mp (not_lt.mp none_decoded)
          subst nothing
          rw [List.drop_zero] at plain ⊢
          rw [ih more (place + 1) plain.2 fits]
          simp [lawful.nil]

/-- A text that can be decoded has its padding at the end. -/
theorem plain_of_decode (lawful : Lawful decode) (decoded : decode (joined chunks) = .ok bytes) :
    Plain chunks := by
  intro padded
  have before : (joined chunks.dropLast).length ≤ (joined chunks).length := by
    rcases List.eq_nil_or_concat chunks with rfl | ⟨first, last, rfl⟩
    · simp
    · rw [List.concat_eq_append, List.dropLast_concat, joined, joined, List.flatMap_append,
        List.length_append]
      exact Nat.le_add_right _ _
  have taken : settled chunks ≤ (joined chunks).length - 4 := by
    unfold settled
    omega
  have start : 0 < settled chunks := by
    apply Nat.pos_of_ne_zero
    intro none_settled
    rw [none_settled] at padded
    cases padded
  have whole : 4 ∣ ((joined chunks).take (settled chunks)).length := by
    rw [List.length_take, Nat.min_eq_left (by omega)]
    exact Nat.dvd_mul_left 4 _
  have more : (joined chunks).drop (settled chunks) ≠ [] := by
    intro nothing
    have length := congrArg List.length nothing
    rw [List.length_drop, List.length_nil] at length
    omega
  rw [← List.take_append_drop (settled chunks) (joined chunks)] at decoded
  exact lawful.padded _ _ whole padded more bytes decoded

/-- A loop that gets through has found each slot in its place. -/
theorem eq_numbered_of_assemble {place : Nat} {result : List UInt8}
    {parts : List (Nat × List Char)}
    (assembled : assemble decode place carry written parts = .ok result) :
    ∃ chunks, parts = numbered place chunks := by
  induction parts generalizing place carry written with
  | nil => exact ⟨[], rfl⟩
  | cons part parts ih =>
      rcases part with ⟨seq, data⟩
      have rest : seq = place ∧ ∃ carry written,
          assemble decode (place + 1) carry written parts = .ok result := by
        unfold assemble at assembled
        split at assembled
        · cases assembled
        · rename_i here
          refine ⟨not_not.mp here, ?_⟩
          dsimp only at assembled
          generalize (if parts = [] then _ else _ : Nat) = count at assembled
          split at assembled
          · split at assembled
            · cases assembled
            · split at assembled
              · cases assembled
              · exact ⟨_, _, assembled⟩
          · exact ⟨_, _, assembled⟩
      rcases rest with ⟨rfl, carry, written, later⟩
      rcases ih later with ⟨chunks, rfl⟩
      exact ⟨data :: chunks, rfl⟩

end

/-! ## Slots -/

theorem lookup_numbered (place seq : Nat) (chunks : List (List Char)) :
    (numbered place chunks).lookup seq = if place ≤ seq then chunks[seq - place]? else none := by
  induction chunks generalizing place with
  | nil => simp [numbered]
  | cons data chunks ih =>
      rw [numbered, List.lookup_cons, ih]
      rcases Nat.lt_trichotomy seq place with before | rfl | after
      · rw [beq_false_of_ne before.ne, if_neg (by omega), if_neg (by omega)]
      · simp
      · rw [beq_false_of_ne after.ne', if_pos (by omega), if_pos (by omega),
          show seq - place = seq - (place + 1) + 1 by omega, List.getElem?_cons_succ]

theorem le_of_mem_numbered {place : Nat} {part : Nat × List Char}
    (listed : part ∈ numbered place chunks) : place ≤ part.1 := by
  induction chunks generalizing place with
  | nil => cases listed
  | cons data chunks ih =>
      rcases List.mem_cons.mp listed with rfl | later
      · exact le_refl _
      · exact (Nat.le_succ place).trans (ih later)

theorem pairwise_numbered (place : Nat) (chunks : List (List Char)) :
    (numbered place chunks).Pairwise fun first second => first.1 < second.1 := by
  induction chunks generalizing place with
  | nil => exact List.Pairwise.nil
  | cons data chunks ih =>
      refine List.pairwise_cons.mpr ⟨fun part later => ?_, ih (place + 1)⟩
      exact Nat.lt_of_succ_le (le_of_mem_numbered later)

/-- Slots without a gap, in order. -/
theorem sortBy_eq_numbered_iff {files : ChunkFiles} (distinct : (files.map Prod.fst).Nodup) :
    sortBy Prod.fst files = numbered 0 chunks ↔ ∀ seq, files.lookup seq = chunks[seq]? := by
  have keys : ((numbered 0 chunks).map Prod.fst).Nodup :=
    List.pairwise_map.mpr ((pairwise_numbered 0 chunks).imp ne_of_lt)
  have found (seq : Nat) : (numbered 0 chunks).lookup seq = chunks[seq]? := by
    rw [lookup_numbered, if_pos (Nat.zero_le seq), Nat.sub_zero]
  constructor
  · intro sorted seq
    rw [← found]
    have same : (numbered 0 chunks).Perm files := sorted ▸ perm_sortBy Prod.fst files
    ext data
    rw [Assoc.lookup_eq_some_iff_mem distinct, Assoc.lookup_eq_some_iff_mem keys, same.mem_iff]
  · intro agrees
    refine sortBy_eq_of_perm ?_ (pairwise_numbered 0 chunks)
    refine (List.perm_ext_iff_of_nodup keys.of_map distinct.of_map).mpr fun part => ?_
    rcases part with ⟨seq, data⟩
    rw [← Assoc.lookup_eq_some_iff_mem distinct, ← Assoc.lookup_eq_some_iff_mem keys, found, agrees]

/-! ## What holds between calls -/

/-- The chunk files of an upload fit in a file of the greatest size. -/
structure SoundFiles (files : ChunkFiles) : Prop where
  distinct : (files.map Prod.fst).Nodup
  below : ∀ file ∈ files, file.1 < maxChunks
  fits : (ChunkSizes.ofFiles files).total * 3 / 4 ≤ maxBytes

/-- The sizes in memory are those of the files. -/
structure UploadsInner.Sound (uploads : UploadsInner) : Prop where
  files : ∀ uploadId files, uploads.staged.lookup uploadId = some files → SoundFiles files
  sizes : ∀ uploadId sizes, uploads.sizes.lookup uploadId = some sizes →
    ∃ files, uploads.staged.lookup uploadId = some files ∧ sizes = ChunkSizes.ofFiles files

theorem SoundFiles.nil : SoundFiles [] where
  distinct := List.nodup_nil
  below _ listed := by cases listed
  fits := Nat.zero_le _

theorem total_put {files : ChunkFiles} (distinct : (files.map Prod.fst).Nodup) (place : Nat)
    (data : List Char) :
    (ChunkSizes.ofFiles (Assoc.put files place data)).total =
      (ChunkSizes.ofFiles files).total -
        ((ChunkSizes.ofFiles files).slots.lookup place).getD 0 + chunkLength data := by
  have sum := @Assoc.sum_drop _ _ _ _ place distinct chunkLength
  simp only [ChunkSizes.ofFiles, Assoc.put, List.map_cons, List.sum_cons, Assoc.lookup_map]
  omega

theorem SoundFiles.put {files : ChunkFiles} (sound : SoundFiles files) {place : Nat}
    (below : place < maxChunks)
    (fits : ((ChunkSizes.ofFiles files).total -
      ((ChunkSizes.ofFiles files).slots.lookup place).getD 0 + chunkLength data) * 3 / 4 ≤
        maxBytes) : SoundFiles (Assoc.put files place data) where
  distinct := Assoc.nodup_put sound.distinct data
  below file listed := by
    rcases List.mem_cons.mp listed with rfl | kept
    · exact below
    · exact sound.below file (List.mem_filter.mp kept).1
  fits := by rwa [total_put sound.distinct]

theorem UploadsInner.Sound.empty : UploadsInner.empty.Sound where
  files _ _ found := by cases found
  sizes _ _ found := by cases found

variable {uploads : UploadsInner}

theorem UploadsInner.Sound.discard (sound : uploads.Sound) (uploadId : String) :
    (uploads.discard uploadId).Sound where
  files other files found := by
    by_cases same : other = uploadId
    · subst same
      rw [UploadsInner.discard, Assoc.lookup_drop_self] at found
      cases found
    · rw [UploadsInner.discard, Assoc.lookup_drop_of_ne same] at found
      exact sound.files other files found
  sizes other sizes found := by
    by_cases same : other = uploadId
    · subst same
      rw [UploadsInner.discard, Assoc.lookup_drop_self] at found
      cases found
    · rw [UploadsInner.discard, Assoc.lookup_drop_of_ne same] at found
      rw [UploadsInner.discard, Assoc.lookup_drop_of_ne same]
      exact sound.sizes other sizes found

theorem UploadsInner.Sound.sweepDue (sound : uploads.Sound) (due : Option (List String)) :
    (uploads.sweepDue due).Sound := by
  cases due with
  | none => exact sound
  | some expired =>
      constructor
      · intro uploadId files found
        simp only [UploadsInner.sweepDue, UploadsInner.sweep, Assoc.lookup_filter_key
          (fun id => decide (id ∉ expired))] at found
        split at found
        · exact sound.files uploadId files found
        · cases found
      · intro uploadId sizes found
        simp only [UploadsInner.sweepDue, UploadsInner.sweep] at found ⊢
        rw [Assoc.lookup_filter_key (fun id => ((uploads.staged.filter fun entry =>
          decide (entry.1 ∉ expired)).lookup id).isSome)] at found
        split at found
        · rename_i kept
          rcases Option.isSome_iff_exists.mp kept with ⟨files, stored⟩
          rcases sound.sizes uploadId sizes found with ⟨others, before, rfl⟩
          refine ⟨files, stored, ?_⟩
          rw [Assoc.lookup_filter_key (fun id => decide (id ∉ expired))] at stored
          split at stored
          · rw [before] at stored
            cases stored
            rfl
          · cases stored
        · cases found

/-- The slots of an upload. -/
def UploadsInner.files (uploads : UploadsInner) (uploadId : String) : ChunkFiles :=
  (uploads.staged.lookup uploadId).getD []

theorem UploadsInner.Sound.soundFiles (sound : uploads.Sound) (uploadId : String) :
    SoundFiles (uploads.files uploadId) := by
  unfold UploadsInner.files
  cases found : uploads.staged.lookup uploadId with
  | none => exact SoundFiles.nil
  | some files => exact sound.files uploadId files found

/-- The sizes in memory are those of the directory, if there are any. -/
theorem UploadsInner.Sound.getD_sizes (sound : uploads.Sound) (uploadId : String) :
    (uploads.sizes.lookup uploadId).getD (ChunkSizes.ofFiles (uploads.files uploadId)) =
      ChunkSizes.ofFiles (uploads.files uploadId) := by
  cases found : uploads.sizes.lookup uploadId with
  | none => rfl
  | some sizes =>
      rcases sound.sizes uploadId sizes found with ⟨files, stored, rfl⟩
      rw [UploadsInner.files, stored]
      rfl

/-- The files of an upload and their sizes, written together. -/
def UploadsInner.stage (uploads : UploadsInner) (uploadId : String) (files : ChunkFiles) :
    UploadsInner :=
  { uploads with
    staged := Assoc.put uploads.staged uploadId files
    sizes := Assoc.put uploads.sizes uploadId (ChunkSizes.ofFiles files) }

theorem UploadsInner.Sound.stage (sound : uploads.Sound) (uploadId : String) {files : ChunkFiles}
    (sound_files : SoundFiles files) :
    (uploads.stage uploadId files).Sound where
  files other found_files found := by
    by_cases same : other = uploadId
    · subst same
      rw [UploadsInner.stage, Assoc.lookup_put_self] at found
      cases found
      exact sound_files
    · rw [UploadsInner.stage, Assoc.lookup_put_of_ne same] at found
      exact sound.files other found_files found
  sizes other sizes found := by
    by_cases same : other = uploadId
    · subst same
      rw [UploadsInner.stage, Assoc.lookup_put_self] at found
      cases found
      exact ⟨files, Assoc.lookup_put_self _, rfl⟩
    · rw [UploadsInner.stage, Assoc.lookup_put_of_ne same] at found
      rw [UploadsInner.stage, Assoc.lookup_put_of_ne same]
      exact sound.sizes other sizes found

/-! ## What the slots come to -/

section

variable {decode : List UInt8 → Except String (List UInt8)}

/-- What the files of an upload come to. -/
def assembled (decode : List UInt8 → Except String (List UInt8)) (files : ChunkFiles) :
    Except String (List UInt8) :=
  if files = [] then .error "Unknown or expired upload"
  else if maxChunks < files.length then .error "Too many upload chunks"
  else assemble decode 0 [] [] (sortBy Prod.fst files)

theorem SoundFiles.length_le {files : ChunkFiles} (sound : SoundFiles files) :
    files.length ≤ maxChunks := by
  have within : files.map Prod.fst ⊆ List.range maxChunks := by
    intro seq listed
    rcases List.mem_map.mp listed with ⟨file, stored, rfl⟩
    exact List.mem_range.mpr (sound.below file stored)
  simpa using (List.subperm_of_subset sound.distinct within).length_le

theorem length_chunkText_le (data : List Char) : (chunkText data).length ≤ chunkLength data := by
  have trimmed : (trim data).Sublist data := by
    have ended : (trimEnd (trimStart data)).Sublist (trimStart data) := by
      rw [← List.reverse_sublist, trimEnd, List.reverse_reverse]
      exact List.dropWhile_sublist _
    exact ended.trans (List.dropWhile_sublist _)
  exact (trimmed.flatMap String.utf8EncodeChar).length_le

theorem length_joined_le (chunks : List (List Char)) :
    (joined chunks).length ≤ (chunks.map chunkLength).sum := by
  induction chunks with
  | nil => exact le_refl 0
  | cons data chunks ih =>
      rw [joined_cons, List.length_append]
      exact Nat.add_le_add (length_chunkText_le data) ih

theorem map_snd_numbered (place : Nat) (chunks : List (List Char)) :
    (numbered place chunks).map Prod.snd = chunks := by
  induction chunks generalizing place with
  | nil => rfl
  | cons data chunks ih => rw [numbered, List.map_cons, ih]

/-- The bytes of slots without a gap. -/
theorem total_ofFiles {files : ChunkFiles} (same : (numbered 0 chunks).Perm files) :
    (ChunkSizes.ofFiles files).total = (chunks.map chunkLength).sum := by
  have sizes : (files.map fun file => chunkLength file.2).Perm (chunks.map chunkLength) := by
    have listed := (same.map Prod.snd).map chunkLength
    rw [map_snd_numbered, List.map_map] at listed
    exact listed.symm
  exact sizes.sum_nat

theorem assembled_eq_ok_iff (lawful : Lawful decode) {files : ChunkFiles}
    (sound : SoundFiles files) (agrees : ∀ seq, files.lookup seq = chunks[seq]?)
    (plain : Plain chunks) (bytes : List UInt8) :
    assembled decode files = .ok bytes ↔ chunks ≠ [] ∧ decode (joined chunks) = .ok bytes := by
  have sorted := (sortBy_eq_numbered_iff sound.distinct).mpr agrees
  have same : (numbered 0 chunks).Perm files := sorted ▸ perm_sortBy Prod.fst files
  unfold assembled
  by_cases empty : chunks = []
  · subst empty
    rw [if_pos (List.nil_perm.mp same)]
    simp
  · have some_file : files ≠ [] := by
      rintro rfl
      exact numbered_ne_nil empty 0 (List.perm_nil.mp same)
    have fits : 4 * ([] : List UInt8).length + 3 * ([] ++ joined chunks).length <
        4 * (maxBytes + 1) := by
      have total := sound.fits
      rw [total_ofFiles same] at total
      have shorter := length_joined_le chunks
      rw [List.nil_append, List.length_nil]
      omega
    have plain_text : pad ∉ ([] ++ joined chunks).take
        ((([] : List UInt8).length + (joined chunks.dropLast).length - 4) / 4 * 4) := by
      simpa [Plain, settled] using plain
    rw [if_neg some_file, if_neg (not_lt.mpr sound.length_le), sorted,
      assemble_eq_ok_iff lawful empty 0 plain_text fits]
    simp [empty]

/-- Only slots without a gap come to anything. -/
theorem exists_chunks_of_assembled {files : ChunkFiles} (sound : SoundFiles files)
    (joins : assembled decode files = .ok bytes) :
    ∃ chunks, chunks ≠ [] ∧ ∀ seq, files.lookup seq = chunks[seq]? := by
  unfold assembled at joins
  split at joins
  · cases joins
  · rename_i some_file
    split at joins
    · cases joins
    · rcases eq_numbered_of_assemble joins with ⟨chunks, sorted⟩
      refine ⟨chunks, ?_, (sortBy_eq_numbered_iff sound.distinct).mp sorted⟩
      rintro rfl
      have same : (numbered 0 []).Perm files := sorted ▸ perm_sortBy Prod.fst files
      exact some_file (List.nil_perm.mp same)

end

/-! ## One call -/

section

variable {decode : List UInt8 → Except String (List UInt8)} {digest : String → String}
variable {uploads : UploadsInner} {uploadId fileName : String}

theorem stagingDir_cases (uploadId : String) :
    stagingDir uploadId = .ok uploadId ∨ stagingDir uploadId = .error "Invalid upload id" := by
  unfold stagingDir
  split
  · exact Or.inl rfl
  · exact Or.inr rfl

/-- The slot of a chunk. -/
def placeOf (files : ChunkFiles) : Option Nat → Nat
  | some seq => seq
  | none =>
      match ((ChunkSizes.ofFiles files).slots.map Prod.fst).max? with
      | some last => last + 1
      | none => 0

/-- The bytes that are staged with a chunk. -/
def totalWith (files : ChunkFiles) (place : Nat) (data : List Char) : Nat :=
  (ChunkSizes.ofFiles files).total - ((ChunkSizes.ofFiles files).slots.lookup place).getD 0 +
    chunkLength data

theorem append_eq (sound : uploads.Sound) (valid : stagingDir uploadId = .ok uploadId)
    (due : Option (List String)) (data : List Char) (seq : Option Nat) (fault : Option String) :
    uploads.append due uploadId data seq fault =
      let files := (uploads.sweepDue due).files uploadId
      let place := placeOf files seq
      let opened := (uploads.sweepDue due).stage uploadId files
      if maxChunks ≤ place then (.error "Invalid chunk index", opened)
      else if maxBytes < totalWith files place data * 3 / 4 then
        (.error "Upload too large", opened.discard uploadId)
      else
        match fault with
        | some message => (.error message, opened)
        | none => (.ok (), opened.stage uploadId (Assoc.put files place data)) := by
  have known := (sound.sweepDue due).getD_sizes uploadId
  have distinct := ((sound.sweepDue due).soundFiles uploadId).distinct
  have sizes (place : Nat) :
      ChunkSizes.ofFiles (Assoc.put ((uploads.sweepDue due).files uploadId) place data) =
        { slots := Assoc.put (ChunkSizes.ofFiles ((uploads.sweepDue due).files uploadId)).slots
            place (chunkLength data)
          total := totalWith ((uploads.sweepDue due).files uploadId) place data } := by
    rw [ChunkSizes.mk.injEq]
    constructor
    · exact Assoc.map_put chunkLength data
    · exact total_put distinct place data
  unfold UploadsInner.append
  simp only [valid]
  rw [UploadsInner.files] at known sizes
  rw [known]
  simp only [UploadsInner.stage, UploadsInner.files, sizes]
  rfl

/-- The state with a new file. -/
def UploadsInner.publish (uploads : UploadsInner) (path : String) (bytes : List UInt8) :
    UploadsInner :=
  { uploads with published := Assoc.put uploads.published path bytes }

theorem commit_of_published (valid : stagingDir uploadId = .ok uploadId)
    (published : uploads.published.lookup (pendingTarget digest uploadId fileName) = some bytes)
    (fault : Option Fault) :
    uploads.commit decode digest uploadId fileName fault =
      (.ok (pendingTarget digest uploadId fileName), uploads.discard uploadId) := by
  simp [UploadsInner.commit, valid, published]

theorem commit_of_fresh (valid : stagingDir uploadId = .ok uploadId)
    (fresh : uploads.published.lookup (pendingTarget digest uploadId fileName) = none)
    (fault : Option Fault) :
    uploads.commit decode digest uploadId fileName fault =
      let path := pendingTarget digest uploadId fileName
      match assembled decode (uploads.files uploadId) with
      | .error message => (.error message, uploads)
      | .ok bytes =>
          match fault with
          | some (.target message) => (.error message, uploads)
          | some (.directory message) => (.error message, uploads.publish path bytes)
          | none => (.ok path, (uploads.publish path bytes).discard uploadId) := by
  unfold UploadsInner.commit assembled
  simp only [valid, fresh, Option.isSome_none, Bool.false_eq_true, if_false]
  rw [← UploadsInner.files]
  split
  · rfl
  · split
    · rfl
    · rfl

theorem append_sound (sound : uploads.Sound) (due : Option (List String)) (uploadId : String)
    (data : List Char) (seq : Option Nat) (fault : Option String) :
    (uploads.append due uploadId data seq fault).2.Sound := by
  rcases stagingDir_cases uploadId with valid | invalid
  · have swept := sound.sweepDue due
    have opened := swept.stage uploadId (swept.soundFiles uploadId)
    rw [append_eq sound valid]
    dsimp only
    split
    · exact opened
    · rename_i below
      split
      · exact opened.discard uploadId
      · rename_i fits
        cases fault with
        | some message => exact opened
        | none =>
            exact opened.stage uploadId
              ((swept.soundFiles uploadId).put (not_le.mp below) (not_lt.mp fits))
  · simpa [UploadsInner.append, invalid] using sound

/-- A call leaves the state as it is, discards an upload, or publishes a file that was not
there. -/
theorem commit_cases (decode : List UInt8 → Except String (List UInt8))
    (digest : String → String) (uploads : UploadsInner) (uploadId fileName : String)
    (fault : Option Fault) :
    let after := (uploads.commit decode digest uploadId fileName fault).2
    let path := pendingTarget digest uploadId fileName
    after = uploads ∨ after = uploads.discard uploadId ∨
      (uploads.published.lookup path = none ∧
        ∃ bytes, after = uploads.publish path bytes ∨
          after = (uploads.publish path bytes).discard uploadId) := by
  intro after path
  rcases stagingDir_cases uploadId with valid | invalid
  · cases published : uploads.published.lookup path with
    | some bytes =>
        right
        left
        exact congrArg Prod.snd (commit_of_published valid published fault)
    | none =>
        have result : uploads.commit decode digest uploadId fileName fault = _ :=
          commit_of_fresh valid published fault
        cases joins : assembled decode (uploads.files uploadId) with
        | error message =>
            left
            simp only [joins] at result
            exact congrArg Prod.snd result
        | ok bytes =>
            simp only [joins] at result
            rcases fault with _ | message | message
            · exact Or.inr (Or.inr ⟨rfl, bytes, Or.inr (congrArg Prod.snd result)⟩)
            · exact Or.inl (congrArg Prod.snd result)
            · exact Or.inr (Or.inr ⟨rfl, bytes, Or.inl (congrArg Prod.snd result)⟩)
  · left
    simp [after, UploadsInner.commit, invalid]

section

variable (sound : uploads.Sound)
include sound

theorem UploadsInner.Sound.publish (path : String) (bytes : List UInt8) :
    (uploads.publish path bytes).Sound :=
  ⟨sound.files, sound.sizes⟩

theorem step_sound (event : Event) : (uploads.step decode digest event).Sound := by
  cases event with
  | append due uploadId data seq fault => exact append_sound sound due uploadId data seq fault
  | commit uploadId fileName fault =>
      rw [UploadsInner.step]
      rcases commit_cases decode digest uploads uploadId fileName fault with
        same | discarded | ⟨-, bytes, published | published⟩
      · rwa [same]
      · rw [discarded]
        exact sound.discard uploadId
      · rw [published]
        exact sound.publish _ bytes
      · rw [published]
        exact (sound.publish _ bytes).discard uploadId
  | restart =>
      refine ⟨sound.files, fun _ _ found => ?_⟩
      cases found

theorem run_sound (events : List Event) : (uploads.run decode digest events).Sound := by
  induction events generalizing uploads with
  | nil => exact sound
  | cons event events ih => exact ih (step_sound sound event)

theorem append_published (due : Option (List String)) (uploadId : String) (data : List Char)
    (seq : Option Nat) (fault : Option String) :
    (uploads.append due uploadId data seq fault).2.published = uploads.published := by
  have swept : (uploads.sweepDue due).published = uploads.published := by
    cases due <;> rfl
  rcases stagingDir_cases uploadId with valid | invalid
  · rw [append_eq sound valid]
    dsimp only
    split
    · exact swept
    · split
      · exact swept
      · cases fault <;> exact swept
  · simp [UploadsInner.append, invalid]

theorem step_published (event : Event) {path : String}
    (published : uploads.published.lookup path = some bytes) :
    (uploads.step decode digest event).published.lookup path = some bytes := by
  cases event with
  | append due uploadId data seq fault =>
      rw [UploadsInner.step, append_published sound]
      exact published
  | commit uploadId fileName fault =>
      rw [UploadsInner.step]
      have kept (fresh : uploads.published.lookup (pendingTarget digest uploadId fileName) = none)
          (new : List UInt8) :
          (uploads.publish (pendingTarget digest uploadId fileName) new).published.lookup path =
            some bytes := by
        have apart : path ≠ pendingTarget digest uploadId fileName := by
          rintro rfl
          rw [fresh] at published
          cases published
        rw [UploadsInner.publish, Assoc.lookup_put_of_ne apart]
        exact published
      rcases commit_cases decode digest uploads uploadId fileName fault with
        same | discarded | ⟨fresh, new, after | after⟩
      · rw [same]
        exact published
      · rw [discarded]
        exact published
      · rw [after]
        exact kept fresh new
      · rw [after]
        exact kept fresh new
  | restart => exact published

theorem run_published (events : List Event) {path : String}
    (published : uploads.published.lookup path = some bytes) :
    (uploads.run decode digest events).published.lookup path = some bytes := by
  induction events generalizing uploads with
  | nil => exact published
  | cons event events ih =>
      exact ih (step_sound sound event) (step_published sound event published)

end

/-! ## Uploads over a run -/

/-- The chunks of an upload, without a gap from the first one on. -/
structure UploadsInner.Holds (uploads : UploadsInner) (uploadId : String)
    (chunks : List (List Char)) : Prop where
  some_chunk : chunks ≠ []
  slots : ∀ seq, (uploads.files uploadId).lookup seq = chunks[seq]?

theorem commit_of_decode (lawful : Lawful decode) (sound : uploads.Sound)
    (valid : stagingDir uploadId = .ok uploadId)
    (fresh : uploads.published.lookup (pendingTarget digest uploadId fileName) = none)
    (holds : uploads.Holds uploadId chunks) (decoded : decode (joined chunks) = .ok bytes) :
    uploads.commit decode digest uploadId fileName none =
      (.ok (pendingTarget digest uploadId fileName),
        (uploads.publish (pendingTarget digest uploadId fileName) bytes).discard uploadId) := by
  have joins := (assembled_eq_ok_iff lawful (sound.soundFiles uploadId) holds.slots
    (plain_of_decode lawful decoded) bytes).mpr ⟨holds.some_chunk, decoded⟩
  rw [commit_of_fresh valid fresh]
  simp only [joins]

theorem exists_assembled_of_commit (valid : stagingDir uploadId = .ok uploadId)
    (fresh : uploads.published.lookup (pendingTarget digest uploadId fileName) = none)
    {fault : Option Fault} {answer : String}
    (ok : (uploads.commit decode digest uploadId fileName fault).1 = .ok answer) :
    ∃ bytes, assembled decode (uploads.files uploadId) = .ok bytes := by
  rw [commit_of_fresh valid fresh] at ok
  cases joins : assembled decode (uploads.files uploadId) with
  | ok bytes => exact ⟨bytes, rfl⟩
  | error message =>
      simp only [joins] at ok
      cases ok

/-- A failed commit changes nothing, unless only the directory could not be synced. -/
theorem commit_eq_of_error {fault : Option Fault} {message : String}
    (valid : stagingDir uploadId = .ok uploadId)
    (failed : (uploads.commit decode digest uploadId fileName fault).1 = .error message)
    (synced : ∀ reason, fault ≠ some (.directory reason)) :
    (uploads.commit decode digest uploadId fileName fault).2 = uploads := by
  cases published : uploads.published.lookup (pendingTarget digest uploadId fileName) with
  | some bytes =>
      rw [commit_of_published valid published] at failed
      cases failed
  | none =>
      rw [commit_of_fresh valid published] at failed ⊢
      cases joins : assembled decode (uploads.files uploadId) with
      | error reason => rfl
      | ok bytes =>
          simp only [joins] at failed ⊢
          rcases fault with _ | reason | reason
          · cases failed
          · rfl
          · exact absurd rfl (synced reason)

theorem files_sweepDue {due : Option (List String)}
    (young : ∀ expired, due = some expired → uploadId ∉ expired) :
    (uploads.sweepDue due).files uploadId = uploads.files uploadId := by
  cases due with
  | none => rfl
  | some expired =>
      simp only [UploadsInner.files, UploadsInner.sweepDue, UploadsInner.sweep]
      rw [Assoc.lookup_filter_key (fun id => decide (id ∉ expired)),
        if_pos (decide_eq_true (young expired rfl))]

/-- A missing chunk finds its slot. -/
theorem append_missing (sound : uploads.Sound) (valid : stagingDir uploadId = .ok uploadId)
    {due : Option (List String)} (young : ∀ expired, due = some expired → uploadId ∉ expired)
    {seq : Nat} (chunk : chunks[seq]? = some data)
    (others : ∀ other, other ≠ seq → (uploads.files uploadId).lookup other = chunks[other]?)
    (below : seq < maxChunks) (fits : (chunks.map chunkLength).sum * 3 / 4 ≤ maxBytes) :
    (uploads.append due uploadId data (some seq) none).1 = .ok () ∧
      (uploads.append due uploadId data (some seq) none).2.Holds uploadId chunks := by
  rw [← files_sweepDue young] at others
  have files := (sound.sweepDue due).soundFiles uploadId
  have result := append_eq sound valid due data (some seq) none
  generalize uploads.sweepDue due = swept at others files result
  have slots (other : Nat) :
      (Assoc.put (swept.files uploadId) seq data).lookup other = chunks[other]? := by
    by_cases same : other = seq
    · subst same
      rw [Assoc.lookup_put_self, chunk]
    · rw [Assoc.lookup_put_of_ne same, others other same]
  have sorted := (sortBy_eq_numbered_iff (Assoc.nodup_put files.distinct data)).mpr slots
  have total : totalWith (swept.files uploadId) seq data = (chunks.map chunkLength).sum := by
    rw [← total_ofFiles (sorted ▸ perm_sortBy Prod.fst _), total_put files.distinct, totalWith]
  have small : ¬ maxBytes < totalWith (swept.files uploadId) seq data * 3 / 4 := by
    rw [total]
    exact not_lt.mpr fits
  have stored : uploads.append due uploadId data (some seq) none =
      (.ok (), (swept.stage uploadId (swept.files uploadId)).stage uploadId
        (Assoc.put (swept.files uploadId) seq data)) :=
    result.trans ((if_neg (not_le.mpr below)).trans (if_neg small))
  rw [stored]
  refine ⟨rfl, ?_, fun other => ?_⟩
  · rintro rfl
    cases chunk
  · rw [← slots, UploadsInner.files, UploadsInner.stage, Assoc.lookup_put_self, Option.getD_some]

/-- Chunks of one text are committed alike. -/
theorem commit_congr (lawful : Lawful decode) {again : UploadsInner} (sound : uploads.Sound)
    (sound_again : again.Sound) (valid : stagingDir uploadId = .ok uploadId)
    (fresh : uploads.published.lookup (pendingTarget digest uploadId fileName) = none)
    (fresh_again : again.published.lookup (pendingTarget digest uploadId fileName) = none)
    {others : List (List Char)} (holds : uploads.Holds uploadId chunks)
    (holds_again : again.Holds uploadId others) (same : joined chunks = joined others)
    (plain : Plain chunks) (plain_again : Plain others) :
    let commit := uploads.commit decode digest uploadId fileName none
    let recommit := again.commit decode digest uploadId fileName none
    commit.1.isOk = recommit.1.isOk ∧
      commit.2.published.lookup (pendingTarget digest uploadId fileName) =
        recommit.2.published.lookup (pendingTarget digest uploadId fileName) := by
  intro commit recommit
  have joins := assembled_eq_ok_iff lawful (sound.soundFiles uploadId) holds.slots plain
  have joins_again :=
    assembled_eq_ok_iff lawful (sound_again.soundFiles uploadId) holds_again.slots plain_again
  rw [show commit = _ from commit_of_fresh valid fresh none,
    show recommit = _ from commit_of_fresh valid fresh_again none]
  cases decoded : decode (joined chunks) with
  | ok bytes =>
      have first := (joins bytes).mpr ⟨holds.some_chunk, decoded⟩
      have second := (joins_again bytes).mpr ⟨holds_again.some_chunk, same ▸ decoded⟩
      simp only [first, second]
      constructor
      · trivial
      · rw [UploadsInner.discard, UploadsInner.publish, Assoc.lookup_put_self,
          UploadsInner.discard, UploadsInner.publish, Assoc.lookup_put_self]
  | error message =>
      cases first : assembled decode (uploads.files uploadId) with
      | ok bytes =>
          rw [((joins bytes).mp first).2] at decoded
          cases decoded
      | error reason =>
          cases second : assembled decode (again.files uploadId) with
          | ok bytes =>
              rw [same, ((joins_again bytes).mp second).2] at decoded
              cases decoded
          | error other =>
              constructor
              · rfl
              · exact fresh.trans fresh_again.symm

end

/-- In every state that calls and restarts lead to, a commit joins the chunks of its upload:
it publishes the decoding of their text, wherever the chunks are cut, once and for all.
A commit that fails leaves everything as it was. -/
theorem commit_publishes_text_of_chunks {decode : List UInt8 → Except String (List UInt8)}
    (lawful : Lawful decode) (digest : String → String) (events : List Event)
    {uploadId : String} (valid : stagingDir uploadId = .ok uploadId) (fileName : String) :
    let uploads := UploadsInner.empty.run decode digest events
    let path := pendingTarget digest uploadId fileName
    let commit := fun uploads : UploadsInner =>
      uploads.commit decode digest uploadId fileName none
    let done := fun (uploads : UploadsInner) bytes =>
      (Except.ok path, (uploads.publish path bytes).discard uploadId)
    -- A commit after the publication answers as the first one did.
    ((uploads.published.lookup path).isSome →
      commit uploads = (.ok path, uploads.discard uploadId)) ∧
    (uploads.published.lookup path = none →
      (∀ answer, (commit uploads).1 = .ok answer → ∃ chunks, uploads.Holds uploadId chunks) ∧
      (∀ chunks, uploads.Holds uploadId chunks →
        (∀ bytes, decode (joined chunks) = .ok bytes → commit uploads = done uploads bytes) ∧
        (Plain chunks → ∀ answer, (commit uploads).1 = .ok answer →
          ∃ bytes, decode (joined chunks) = .ok bytes)) ∧
      -- Other chunks of the same text have the same verdict and the same bytes.
      (∀ later chunks others,
        let again := UploadsInner.empty.run decode digest later
        again.published.lookup path = none → uploads.Holds uploadId chunks →
        again.Holds uploadId others → joined chunks = joined others → Plain chunks →
        Plain others →
          (commit uploads).1.isOk = (commit again).1.isOk ∧
          (commit uploads).2.published.lookup path =
            (commit again).2.published.lookup path) ∧
      -- What was missing can still come.
      (∀ chunks seq data bytes due, chunks[seq]? = some data →
        (∀ other, other ≠ seq → (uploads.files uploadId).lookup other = chunks[other]?) →
        seq < maxChunks → (chunks.map chunkLength).sum * 3 / 4 ≤ maxBytes →
        decode (joined chunks) = .ok bytes →
        (∀ expired, due = some expired → uploadId ∉ expired) →
          let appended := uploads.append due uploadId data (some seq) none
          appended.1 = .ok () ∧ commit appended.2 = done appended.2 bytes)) ∧
    (∀ fault message, (∀ reason, fault ≠ some (.directory reason)) →
      (uploads.commit decode digest uploadId fileName fault).1 = .error message →
      (uploads.commit decode digest uploadId fileName fault).2 = uploads) ∧
    (∀ later other bytes, uploads.published.lookup other = some bytes →
      (uploads.run decode digest later).published.lookup other = some bytes) := by
  intro uploads path commit done
  have sound : uploads.Sound := run_sound UploadsInner.Sound.empty events
  refine ⟨fun published => ?_, fun fresh => ⟨fun answer ok => ?_, fun chunks holds => ?_, ?_, ?_⟩,
    fun fault message synced failed => commit_eq_of_error valid failed synced,
    fun later other bytes => run_published sound later⟩
  · rcases Option.isSome_iff_exists.mp published with ⟨bytes, published⟩
    exact commit_of_published valid published none
  · rcases exists_assembled_of_commit valid fresh ok with ⟨bytes, joins⟩
    rcases exists_chunks_of_assembled (sound.soundFiles uploadId) joins with
      ⟨chunks, some_chunk, slots⟩
    exact ⟨chunks, some_chunk, slots⟩
  · constructor
    · intro bytes decoded
      exact commit_of_decode lawful sound valid fresh holds decoded
    · intro plain answer ok
      rcases exists_assembled_of_commit valid fresh ok with ⟨bytes, joins⟩
      have decoded := (assembled_eq_ok_iff lawful (sound.soundFiles uploadId) holds.slots plain
        bytes).mp joins
      exact ⟨bytes, decoded.2⟩
  · intro later chunks others again fresh_again holds holds_again same plain plain_again
    have sound_again : again.Sound := run_sound UploadsInner.Sound.empty later
    exact commit_congr lawful sound sound_again valid fresh fresh_again holds holds_again same
      plain plain_again
  · intro chunks seq data bytes due chunk others below fits decoded young
    rcases append_missing sound valid young chunk others below fits with ⟨stored, holds⟩
    have sound_after := append_sound sound due uploadId data (some seq) none
    have fresh_after := fresh
    rw [← append_published sound due uploadId data (some seq) none] at fresh_after
    exact ⟨stored, commit_of_decode lawful sound_after valid fresh_after holds decoded⟩

theorem commit_publishes_text_of_two_chunks :
    let uploads := UploadsInner.empty.run Base64.decodeStandard id
      [.append none "u" "JD".toList (some 1) none, .restart,
        .append none "u" "QU".toList (some 0) none]
    (uploads.commit Base64.decodeStandard id "u" "a.png" none).1 = .ok "v2-u-a.png" ∧
      (uploads.commit Base64.decodeStandard id "u" "a.png" none).2.published =
        [("v2-u-a.png", [65, 66, 67])] := by
  intro uploads
  have facts := commit_publishes_text_of_chunks Base64.decodeStandard_lawful id
    [.append none "u" "JD".toList (some 1) none, .restart,
      .append none "u" "QU".toList (some 0) none] (show stagingDir "u" = _ by decide) "a.png"
  have files : uploads.files "u" = [(0, "QU".toList), (1, "JD".toList)] := by decide
  have holds : uploads.Holds "u" ["QU".toList, "JD".toList] := by
    refine ⟨by decide, fun seq => ?_⟩
    rcases seq with _ | _ | seq
    · rfl
    · rfl
    · rfl
  have committed := ((facts.2.1 (by decide)).2.1 _ holds).1 [65, 66, 67] (by decide)
  decide

/-- Blanks around a chunk are not part of its text, a commit can be repeated, and a padded
group that is decoded early goes unnoticed. -/
theorem commit_accepts_more_than_base64 :
    let commit := fun uploads : UploadsInner =>
      uploads.commit Base64.decodeStandard id "u" "a.png" none
    let staged := fun chunks : List String =>
      UploadsInner.empty.run Base64.decodeStandard id
        (chunks.map fun data => .append none "u" data.toList none none)
    let text := fun chunks : List String => chunks.flatMap fun data => encodeUtf8 data.toList
    ((commit (staged ["QUJD\n"])).1 = .ok "v2-u-a.png" ∧
        Base64.decodeStandard (text ["QUJD\n"]) = .error "Invalid base64") ∧
      ((commit (staged ["QUJD"])).2.files "u" = [] ∧
        (commit (commit (staged ["QUJD"])).2).1 = .ok "v2-u-a.png") ∧
      (commit (staged ["QQ==QUJD", "QUJD"])).1 = .ok "v2-u-a.png" ∧
        Base64.decodeStandard (text ["QQ==QUJD", "QUJD"]) = .error "Invalid base64" := by
  decide

end Zeron.Uploads
