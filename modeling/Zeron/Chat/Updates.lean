import Mathlib.Order.CompletePartialOrder
import Mathlib.Data.Set.Lattice
import Zeron.Chat.Outbox
import Zeron.Data.SortBy

/-!
# A legacy document in rows

The operations of a document are published again, peer after peer.  A range whose export is
too long for a row is halved by its counters until it fits or is a single operation.  The
encoder of Loro is a parameter: what an export of a range holds is the range.
-/

namespace Zeron.Chat

open Data

/-- `loro::ID`. -/
structure OpId where
  peer : UInt64
  counter : Int

/-- `loro::IdSpan`. -/
structure IdSpan where
  peer : UInt64
  start : Int
  stop : Int

/-- The operations of a range. -/
def IdSpan.ids (span : IdSpan) : Set OpId :=
  {id | id.peer = span.peer ∧ span.start ≤ id.counter ∧ id.counter < span.stop}

/-- `loro::VersionVector`: the counter of the next operation of each peer. -/
structure VersionVector where
  entries : List (UInt64 × Int)
  distinct : (entries.map Prod.fst).Nodup

/-- The operations that `reached` has and `known` does not. -/
def between (known reached : VersionVector) : Set OpId :=
  {id | 0 ≤ id.counter ∧ (∃ stop, (id.peer, stop) ∈ reached.entries ∧ id.counter < stop) ∧
    ∀ stop, (id.peer, stop) ∈ known.entries → stop ≤ id.counter}

def VersionVector.empty : VersionVector where
  entries := []
  distinct := List.nodup_nil

/-- `split`, which returns what the source pushes to `out`. -/
def split (exporter : IdSpan → Except String (List UInt8)) (peer : UInt64) (start stop : Int) :
    Except String (List (List UInt8)) := do
  let bytes ← exporter ⟨peer, start, stop⟩
  if bytes.length ≤ maxPushBytes ∨ stop - start ≤ 1 then
    return [bytes]
  else
    let middle := start + (stop - start) / 2
    let first ← split exporter peer start middle
    let second ← split exporter peer middle stop
    return first ++ second
termination_by (stop - start).toNat

/-- The loop of `publication_updates` through the sorted peers. -/
def splitAll (exporter : IdSpan → Except String (List UInt8)) :
    List (UInt64 × Int) → Except String (List (List UInt8))
  | [] => return []
  | (peer, stop) :: peers => do
      let pieces ← (if stop > 0 then split exporter peer 0 stop else pure [])
      let others ← splitAll exporter peers
      return pieces ++ others

def publicationUpdates (exporter : IdSpan → Except String (List UInt8)) (vv : VersionVector) :
    Except String (List (List UInt8)) :=
  splitAll exporter (sortBy (fun entry => entry.1.toNat) vv.entries)

/-! ## Pieces -/

/-- An operation comes before another one: peers are published in order, and each from its
first operation on. -/
def OpId.Before (earlier later : OpId) : Prop :=
  earlier.peer < later.peer ∨ earlier.peer = later.peer ∧ earlier.counter < later.counter

/-- The pieces hold each of the operations once, in order, and each piece is a range that
fits into a row or is a single operation. -/
structure Tiles (holds : List UInt8 → Set OpId) (pieces : List (List UInt8)) (ids : Set OpId) :
    Prop where
  spans : ∀ piece ∈ pieces, ∃ span : IdSpan, span.start < span.stop ∧ holds piece = span.ids
  covers : ∀ id, id ∈ ids ↔ ∃ piece ∈ pieces, id ∈ holds piece
  ordered : pieces.Pairwise fun earlier later =>
    ∀ first ∈ holds earlier, ∀ second ∈ holds later, first.Before second
  small : ∀ piece ∈ pieces, piece.length ≤ maxPushBytes ∨ ∃ id, holds piece = {id}

/-- An export holds exactly its range. -/
def Exact (exporter : IdSpan → Except String (List UInt8)) (holds : List UInt8 → Set OpId)
    (span : IdSpan) : Prop :=
  ∃ bytes, exporter span = .ok bytes ∧ holds bytes = span.ids

section Pieces

variable {exporter : IdSpan → Except String (List UInt8)} {holds : List UInt8 → Set OpId}
  {pieces others : List (List UInt8)} {ids rest : Set OpId}

theorem OpId.Before.ne {earlier later : OpId} (before : earlier.Before later) :
    earlier ≠ later := by
  rintro rfl
  rcases before with less | ⟨_, less⟩
  · exact UInt64.lt_irrefl _ less
  · exact lt_irrefl _ less

/-- No operation is in two pieces. -/
theorem Tiles.apart (tiles : Tiles holds pieces ids) :
    pieces.Pairwise fun earlier later => Disjoint (holds earlier) (holds later) :=
  tiles.ordered.imp fun before =>
    Set.disjoint_left.mpr fun id first second => (before id first id second).ne rfl

theorem tiles_nil : Tiles holds [] ∅ where
  spans := by simp
  covers := by simp
  ordered := List.Pairwise.nil
  small := by simp

theorem Tiles.append (tiles : Tiles holds pieces ids) (more : Tiles holds others rest)
    (before : ∀ first ∈ ids, ∀ second ∈ rest, first.Before second) :
    Tiles holds (pieces ++ others) (ids ∪ rest) where
  spans := by
    intro piece listed
    rcases List.mem_append.mp listed with listed | listed
    · exact tiles.spans piece listed
    · exact more.spans piece listed
  covers := by
    intro id
    rw [Set.mem_union, tiles.covers, more.covers]
    simp only [List.mem_append, or_and_right, exists_or]
  ordered := by
    apply List.pairwise_append.mpr
    refine ⟨tiles.ordered, more.ordered, ?_⟩
    intro earlier listed later there first mine second others
    exact before first ((tiles.covers first).mpr ⟨earlier, listed, mine⟩) second
      ((more.covers second).mpr ⟨later, there, others⟩)
  small := by
    intro piece listed
    rcases List.mem_append.mp listed with listed | listed
    · exact tiles.small piece listed
    · exact more.small piece listed

/-- A range of one counter is a single operation. -/
theorem IdSpan.ids_single {span : IdSpan} (some : span.start < span.stop)
    (short : span.stop - span.start ≤ 1) : span.ids = {⟨span.peer, span.start⟩} := by
  have next : span.stop = span.start + 1 := by omega
  ext id
  rcases id with ⟨peer, counter⟩
  simp only [IdSpan.ids, Set.mem_singleton_iff, OpId.mk.injEq, next, Int.lt_add_one_iff]
  constructor
  · rintro ⟨rfl, low, high⟩
    exact ⟨rfl, le_antisymm high low⟩
  · rintro ⟨rfl, rfl⟩
    exact ⟨rfl, le_rfl, le_rfl⟩

theorem IdSpan.ids_union {peer : UInt64} {start middle stop : Int} (low : start ≤ middle)
    (high : middle ≤ stop) :
    (⟨peer, start, middle⟩ : IdSpan).ids ∪ (⟨peer, middle, stop⟩ : IdSpan).ids =
      (⟨peer, start, stop⟩ : IdSpan).ids := by
  ext id
  simp only [IdSpan.ids]
  grind

/-- A range is split into pieces, whatever its exports weigh. -/
theorem split_tiles {peer : UInt64} {start stop : Int} (some : start < stop)
    (exact_exports : ∀ low high, start ≤ low → low < high → high ≤ stop →
      Exact exporter holds ⟨peer, low, high⟩) :
    ∃ pieces, split exporter peer start stop = .ok pieces ∧
      Tiles holds pieces (⟨peer, start, stop⟩ : IdSpan).ids := by
  -- on the number of operations: both halves are shorter and not empty
  induction size : (stop - start).toNat using Nat.strong_induction_on
    generalizing start stop with
  | _ size ih =>
      rcases exact_exports start stop le_rfl some le_rfl with ⟨bytes, exported, held⟩
      rw [split, exported]
      simp only [bind, Except.bind]
      split
      · rename_i small
        refine ⟨[bytes], rfl, ?_, ?_, List.pairwise_singleton _ _, ?_⟩
        · simpa using ⟨⟨peer, start, stop⟩, some, held⟩
        · simp [held]
        · simp only [List.mem_singleton, forall_eq]
          exact small.imp_right fun short => ⟨_, held.trans (IdSpan.ids_single some short)⟩
      · rename_i large
        have middle : start < start + (stop - start) / 2 ∧
            start + (stop - start) / 2 < stop := by omega
        rcases ih _ (by omega) middle.1
            (fun low high above part below =>
              exact_exports low high above part (below.trans middle.2.le)) rfl
          with ⟨first, splits, tiles⟩
        rcases ih _ (by omega) middle.2
            (fun low high above part below =>
              exact_exports low high (middle.1.le.trans above) part below) rfl
          with ⟨second, splitsToo, more⟩
        rw [splits, splitsToo]
        refine ⟨first ++ second, rfl, ?_⟩
        rw [← IdSpan.ids_union middle.1.le middle.2.le]
        apply tiles.append more
        rintro earlier ⟨samePeer, _, below⟩ later ⟨otherPeer, above, _⟩
        exact .inr ⟨samePeer.trans otherPeer.symm, below.trans_le above⟩

/-- The operations of the listed peers. -/
def idsOf (peers : List (UInt64 × Int)) : Set OpId :=
  {id | ∃ stop, (id.peer, stop) ∈ peers ∧ id ∈ (⟨id.peer, 0, stop⟩ : IdSpan).ids}

theorem splitAll_tiles {peers : List (UInt64 × Int)}
    (sorted : peers.Pairwise fun first second => first.1 < second.1)
    (exact_exports : ∀ peer stop, (peer, stop) ∈ peers → ∀ low high, 0 ≤ low → low < high →
      high ≤ stop → Exact exporter holds ⟨peer, low, high⟩) :
    ∃ pieces, splitAll exporter peers = .ok pieces ∧ Tiles holds pieces (idsOf peers) := by
  induction peers with
  | nil =>
      refine ⟨[], rfl, ?_⟩
      have none : idsOf [] = ∅ := by simp [idsOf]
      rw [none]
      exact tiles_nil
  | cons peer peers ih =>
      rcases peer with ⟨peer, stop⟩
      rcases List.pairwise_cons.mp sorted with ⟨below, sorted⟩
      rcases ih sorted fun other end_ listed =>
          exact_exports other end_ (List.mem_cons_of_mem _ listed) with ⟨others, splits, more⟩
      have own : ∃ pieces, (if stop > 0 then split exporter peer 0 stop else .ok []) =
          .ok pieces ∧ Tiles holds pieces (⟨peer, 0, stop⟩ : IdSpan).ids := by
        split
        · rename_i some
          exact split_tiles some (exact_exports peer stop List.mem_cons_self)
        · rename_i none
          refine ⟨[], rfl, ?_⟩
          have empty : (⟨peer, 0, stop⟩ : IdSpan).ids = ∅ := by
            ext id
            simp only [IdSpan.ids, Set.mem_ofPred_eq, Set.mem_empty_iff_false, iff_false]
            omega
          rw [empty]
          exact tiles_nil
      rcases own with ⟨pieces, own, tiles⟩
      refine ⟨pieces ++ others, ?_, ?_⟩
      · change (if stop > 0 then split exporter peer 0 stop else .ok []).bind _ = _
        rw [own, splits]
        rfl
      · have both : idsOf ((peer, stop) :: peers) =
            (⟨peer, 0, stop⟩ : IdSpan).ids ∪ idsOf peers := by
          ext id
          simp only [idsOf, IdSpan.ids, Set.mem_union, Set.mem_ofPred_eq]
          grind
        rw [both]
        apply tiles.append more
        rintro earlier ⟨samePeer, _, _⟩ later ⟨end_, listed, _⟩
        exact .inl (samePeer ▸ below _ listed)

end Pieces

/-! ## The document -/

theorem VersionVector.sorted (vv : VersionVector) :
    (sortBy (fun entry => entry.1.toNat) vv.entries).Pairwise
      fun first second => first.1 < second.1 := by
  have distinct : (vv.entries.map fun entry => entry.1.toNat).Nodup := by
    have numbers := vv.distinct.map fun first second same => UInt64.toNat_inj.mp same
    rwa [List.map_map] at numbers
  exact (pairwise_lt_sortBy distinct).imp fun below => UInt64.lt_iff_toNat_lt.mpr below

theorem between_empty (vv : VersionVector) :
    between .empty vv = idsOf (sortBy (fun entry => entry.1.toNat) vv.entries) := by
  ext id
  simp only [between, idsOf, IdSpan.ids, VersionVector.empty, mem_sortBy]
  grind

/-- A document is published again in pieces, however long its exports are: the pieces hold
each of its operations once, from the first one of each peer on. -/
theorem publication_updates_tile (exporter : IdSpan → Except String (List UInt8))
    (holds : List UInt8 → Set OpId) (vv : VersionVector)
    (exact_exports : ∀ peer stop, (peer, stop) ∈ vv.entries → ∀ low high, 0 ≤ low → low < high →
      high ≤ stop → Exact exporter holds ⟨peer, low, high⟩) :
    ∃ pieces, publicationUpdates exporter vv = .ok pieces ∧
      Tiles holds pieces (between .empty vv) ∧
        pieces.Pairwise fun earlier later => Disjoint (holds earlier) (holds later) := by
  rcases splitAll_tiles vv.sorted fun peer stop listed =>
      exact_exports peer stop (mem_sortBy.mp listed) with ⟨pieces, splits, tiles⟩
  rw [← between_empty] at tiles
  exact ⟨pieces, splits, tiles, tiles.apart⟩

/-- Each operation of the peer 7 takes a whole row. -/
def longRows (span : IdSpan) : Except String (List UInt8) :=
  .ok ((List.range' span.start.toNat (span.stop - span.start).toNat).flatMap fun counter =>
    List.replicate maxPushBytes (UInt8.ofNat counter))

def heldByRows (bytes : List UInt8) : Set OpId :=
  {id | id.peer = 7 ∧ ∃ byte ∈ bytes, id.counter = byte.toNat}

def twoLongRows : VersionVector where
  entries := [(7, 2)]
  distinct := by decide

def oneLongRow : VersionVector where
  entries := [(7, 1)]
  distinct := by decide

theorem longRows_exact (peer : UInt64) (stop : Int) (listed : (peer, stop) ∈ twoLongRows.entries)
    (low high : Int) (above : 0 ≤ low) (some : low < high) (below : high ≤ stop) :
    Exact longRows heldByRows ⟨peer, low, high⟩ := by
  cases List.mem_singleton.mp listed
  refine ⟨_, rfl, ?_⟩
  ext id
  have long : maxPushBytes ≠ 0 := by decide
  simp only [heldByRows, IdSpan.ids, List.mem_flatMap, List.mem_range'_1, List.mem_replicate]
  refine and_congr_right fun _ => ⟨?_, ?_⟩
  · rintro ⟨_, ⟨counter, inside, _, rfl⟩, same⟩
    rw [UInt8.toNat_ofNat'] at same
    omega
  · rintro ⟨first, last⟩
    refine ⟨_, ⟨id.counter.toNat, by omega, long, rfl⟩, ?_⟩
    rw [UInt8.toNat_ofNat']
    omega

theorem publication_updates_tile_longRows :
    ∃ pieces, publicationUpdates longRows twoLongRows = .ok pieces ∧
      Tiles heldByRows pieces (between .empty twoLongRows) ∧
        pieces.Pairwise fun earlier later =>
          Disjoint (heldByRows earlier) (heldByRows later) :=
  publication_updates_tile longRows heldByRows twoLongRows longRows_exact

/-- What a reader already has is published again. -/
theorem known_operation_is_published_again :
    ¬ ∀ known pieces, publicationUpdates longRows twoLongRows = .ok pieces →
      Tiles heldByRows pieces (between known twoLongRows) := by
  intro claimed
  rcases splitAll_tiles twoLongRows.sorted fun peer stop listed =>
      longRows_exact peer stop (mem_sortBy.mp listed) with ⟨pieces, splits, tiles⟩
  have first : (⟨7, 0⟩ : OpId) ∈ between .empty twoLongRows := by
    simp [between, VersionVector.empty, twoLongRows]
  rw [between_empty, tiles.covers, ← (claimed oneLongRow pieces splits).covers] at first
  exact absurd (first.2.2 1 List.mem_cons_self) (by decide)

end Zeron.Chat
