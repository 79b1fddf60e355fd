import Mathlib.Data.Nat.Bitwise
import Ccr2004.CString
import Ccr2004.Efi
import Ccr2004.YaffsTypes

/-!
# The block device of the NAND driver

`AlNandDxe.c`: the bad-block scan and `ReadBlocks`. A read takes a 64-bit
address and a 64-bit size and goes on with 32 bits of each; the range check is
made on the 32-bit sum.

`readBlocks_run` says what a read does for every pair of arguments, wherever
its 32-bit page number goes. It is the read the arguments ask for exactly when
the sum does not come out small by wrapping.
-/

namespace Ccr2004

/-- `AL_NAND_CONTEXT`, without the HAL object and the protocols. -/
structure AlNandContext where
  pageSize : UInt32
  pagesPerBlock : UInt32
  numBlocks : UInt32
  numPages : UInt32
  badBlockMap : List UInt8
  mediaId : UInt32

/-- The context `AlNandDxeInitialize` sets up, before the bad-block scan. -/
def benandContext : AlNandContext where
  pageSize := 2048
  pagesPerBlock := 64
  numBlocks := 1024
  numPages := 1024 * 64
  badBlockMap := List.replicate 128 0
  mediaId := 0

/-- The chip: its pages, the first spare byte of each, and the reads for which
the HAL reports an error. A scan reads a marker once and a transfer a page
once, so an error is told by the page. -/
structure BenandChip where
  page : UInt32 → PageData
  oob : UInt32 → UInt8
  pageFails : UInt32 → Bool
  oobFails : UInt32 → Bool

namespace BenandChip

variable (chip : BenandChip)

def alNandReadPage (page : UInt32) : Except EfiStatus (List UInt8) :=
  if chip.pageFails page then .error .deviceError else .ok (List.ofFn (chip.page page))

def alNandReadOobByte (page : UInt32) : Except EfiStatus UInt8 :=
  if chip.oobFails page then .error .deviceError else .ok (chip.oob page)

end BenandChip

/-- `(UINT8)(1 << (Block % 8))`. -/
def badBlockBit (block : UInt32) : UInt8 := 1 <<< (block % 8).toUInt8

namespace AlNandContext

variable (ctx : AlNandContext) (chip : BenandChip)

/-- One block of the scan. -/
def scanBadBlock (block : Nat) (map : List UInt8) :
    Run (Flow (List UInt8) (List UInt8)) :=
  let block := UInt32.ofNat block
  let page := block * ctx.pagesPerBlock
  let bad :=
    match chip.alNandReadOobByte page with
    | .error _ => true
    | .ok oobByte => oobByte != 0xFF
  if bad then do
    let old ← loadAt map (block / 8).toNat
    .ok (.next (map.set (block / 8).toNat (old ||| badBlockBit block)))
  else .ok (.next map)

def alNandScanBadBlocks : Run AlNandContext := do
  let map ← forFrom (ctx.scanBadBlock chip) ctx.numBlocks.toNat 0
    (List.replicate ctx.badBlockMap.length 0)
  .ok { ctx with badBlockMap := map.state }

def alNandIsBlockBad (block : UInt32) : Run Bool :=
  if block ≥ ctx.numBlocks then .ok true
  else do
    let byte ← loadAt ctx.badBlockMap (block / 8).toNat
    .ok (byte &&& badBlockBit block != 0)

/-- The loop variables of `AlNandBlockIoReadBlocks`; `done` is how far `Buf`
is into `Buffer`. -/
structure ReadBlocksState where
  page : UInt32
  numPages : UInt32
  done : Nat
  buffer : List UInt8

/-- One page. The bytes a failed read leaves in its place are never looked
at. -/
def readBlocksRound (st : ReadBlocksState) :
    Run (Flow ReadBlocksState (EfiStatus × List UInt8)) :=
  if st.numPages > 0 then do
    let block := st.page / ctx.pagesPerBlock
    let bad ← ctx.alNandIsBlockBad block
    let data :=
      if bad then .ok (List.replicate ctx.pageSize.toNat 0xFF)
      else chip.alNandReadPage st.page
    match data with
    | .error _ => .ok (.exit (.deviceError, st.buffer))
    | .ok bytes => do
        let buffer ← storeSlice st.buffer st.done bytes
        .ok (.next
          { page := st.page + 1
            numPages := st.numPages - 1
            done := st.done + ctx.pageSize.toNat
            buffer := buffer })
  else .ok (.exit (.success, st.buffer))

/-- `AlNandBlockIoReadBlocks`; `Buffer` is passed in and returned. -/
def alNandBlockIoReadBlocks (mediaId : UInt32) (lba bufferSize : UInt64)
    (buffer : Option (List UInt8)) : Run (EfiStatus × Option (List UInt8)) :=
  match buffer with
  | none => .ok (.invalidParameter, none)
  | some buffer =>
      if mediaId ≠ ctx.mediaId then .ok (.mediaChanged, some buffer)
      else if bufferSize = 0 then .ok (.success, some buffer)
      else if bufferSize % ctx.pageSize.toUInt64 ≠ 0 then .ok (.badBufferSize, some buffer)
      else
        let numPages := (bufferSize / ctx.pageSize.toUInt64).toUInt32
        let page := lba.toUInt32
        if page + numPages > ctx.numPages then .ok (.invalidParameter, some buffer)
        else do
          let (status, buffer) ← loopFuel (ctx.readBlocksRound chip) (numPages.toNat + 1)
            { page := page, numPages := numPages, done := 0, buffer := buffer }
          .ok (status, some buffer)

end AlNandContext

/-! ## The bad-block map -/

/-- A byte has a bit set exactly when it meets the mask of the bit. -/
theorem and_bit_ne_zero_iff {x mask : UInt8} {k : Nat} (hmask : mask.toNat = 2 ^ k) :
    x &&& mask ≠ 0 ↔ x.toNat.testBit k = true := by
  have hbit : ∀ j, (x &&& mask).toNat.testBit j = (x.toNat.testBit j && decide (k = j)) := by
    intro j
    rw [UInt8.toNat_and, Nat.testBit_and, hmask, Nat.testBit_two_pow]
  constructor
  · intro hne
    by_contra hclear
    refine hne (UInt8.toNat_inj.mp (Nat.eq_of_testBit_eq fun j => ?_))
    rw [hbit]
    by_cases hj : k = j
    · rw [← hj, Bool.eq_false_iff.mpr hclear]
      simp
    · simp [hj]
  · intro hset hzero
    have hk := hbit k
    rw [hzero, hset] at hk
    simp at hk

theorem toNat_badBlockBit (block : UInt32) : (badBlockBit block).toNat = 2 ^ (block.toNat % 8) := by
  have hlt : block.toNat % 8 < 8 := Nat.mod_lt _ (by decide)
  have hpow : 2 ^ (block.toNat % 8) < 2 ^ 8 := Nat.pow_lt_pow_right (by decide) hlt
  rw [badBlockBit, UInt8.toNat_shiftLeft, UInt32.toNat_toUInt8, UInt32.toNat_mod,
    show (8 : UInt32).toNat = 8 from rfl, show (1 : UInt8).toNat = 1 from rfl,
    Nat.mod_eq_of_lt (show block.toNat % 8 < 2 ^ 8 by omega), Nat.mod_eq_of_lt hlt,
    Nat.one_shiftLeft, Nat.mod_eq_of_lt hpow]

/-- Block `b` is marked in a map. -/
def markedIn (map : List UInt8) (b : Nat) : Bool := (map.getD (b / 8) 0).toNat.testBit (b % 8)

theorem loadAt_ok {p : List UInt8} {i : Nat} (h : i < p.length) :
    loadAt p i = .ok (p.getD i 0) := by
  rw [loadAt, List.drop_eq_getElem_cons h, loadByte_cons, List.getD_eq_getElem _ _ h]

theorem markedIn_replicate (n b : Nat) : markedIn (List.replicate n 0) b = false := by
  rw [markedIn, List.getD_eq_getElem?_getD, List.getElem?_replicate]
  split <;> simp

/-- Setting the bit of a block marks it and no other. -/
theorem markedIn_set {map : List UInt8} {block : UInt32} (h : block.toNat / 8 < map.length)
    (b : Nat) :
    markedIn (map.set (block.toNat / 8) (map.getD (block.toNat / 8) 0 ||| badBlockBit block)) b
      = (markedIn map b || decide (b = block.toNat)) := by
  rw [markedIn, markedIn]
  by_cases hbyte : b / 8 = block.toNat / 8
  · rw [hbyte, List.getD_eq_getElem _ _ (by rwa [List.length_set]), List.getElem_set_self,
      UInt8.toNat_or, Nat.testBit_or, toNat_badBlockBit, Nat.testBit_two_pow]
    congr 1
    rw [decide_eq_decide]
    omega
  · have hne : b ≠ block.toNat := fun heq => hbyte (by rw [heq])
    simp only [decide_eq_false hne, Bool.or_false, List.getD_eq_getElem?_getD,
      List.getElem?_set_ne (Ne.symm hbyte)]

namespace BenandChip

variable (chip : BenandChip)

/-- The scan takes a block for bad when its marker is not 0xFF or cannot be
read. -/
def badBlock (block : Nat) : Bool :=
  let page := UInt32.ofNat block * 64
  chip.oobFails page || chip.oob page != 0xFF

/-- What a block device of the chip holds at a page: 0xFF in a bad block. -/
def served (page : Nat) : List UInt8 :=
  if chip.badBlock (page / 64) then List.replicate 2048 0xFF
  else List.ofFn (chip.page (UInt32.ofNat page))

end BenandChip

/-- The context after the scan: the map marks the bad blocks. -/
structure Scanned (chip : BenandChip) (ctx : AlNandContext) : Prop where
  fields : ctx = { benandContext with badBlockMap := ctx.badBlockMap }
  size_eq : ctx.badBlockMap.length = 128
  marked : ∀ b < 1024, markedIn ctx.badBlockMap b = chip.badBlock b

section Scan

variable {chip : BenandChip}

/-- The map when the blocks below `n` are scanned. -/
structure MapInv (chip : BenandChip) (n : Nat) (map : List UInt8) : Prop where
  size_eq : map.length = 128
  marked : ∀ b, markedIn map b = (decide (b < n) && chip.badBlock b)

theorem scanBadBlock_spec {map : List UInt8} {n : Nat} (hn : n < 1024)
    (hmap : MapInv chip n map) :
    ∃ map', benandContext.scanBadBlock chip n map = .ok (.next map')
      ∧ MapInv chip (n + 1) map' := by
  obtain ⟨hsize, hmarked⟩ := hmap
  have hblock : (UInt32.ofNat n).toNat = n :=
    UInt32.toNat_ofNat_of_lt' (show n < 4294967296 by omega)
  have hbyte : (UInt32.ofNat n / 8).toNat = (UInt32.ofNat n).toNat / 8 := UInt32.toNat_div _ _
  have hin : (UInt32.ofNat n).toNat / 8 < map.length := by omega
  have hbad : (match chip.alNandReadOobByte (UInt32.ofNat n * benandContext.pagesPerBlock) with
      | .error _ => true
      | .ok oobByte => oobByte != 0xFF) = chip.badBlock n := by
    rw [BenandChip.alNandReadOobByte, BenandChip.badBlock,
      show benandContext.pagesPerBlock = 64 from rfl]
    cases chip.oobFails (UInt32.ofNat n * 64) with
    | false => rfl
    | true => rfl
  have hsplit : ∀ b, decide (b < n + 1) = (decide (b < n) || decide (b = n)) := by
    intro b
    rw [← Bool.decide_or, decide_eq_decide]
    omega
  rw [AlNandContext.scanBadBlock, hbad]
  cases hb : chip.badBlock n with
  | false =>
      refine ⟨map, rfl, hsize, fun b => ?_⟩
      rw [hmarked, hsplit]
      by_cases heq : b = n
      · rw [heq, hb]
        simp
      · rw [decide_eq_false heq, Bool.or_false]
  | true =>
      rw [if_pos rfl, hbyte, loadAt_ok hin, ok_bind]
      refine ⟨_, rfl, by rw [List.length_set, hsize], fun b => ?_⟩
      rw [markedIn_set hin, hmarked, hsplit, hblock]
      by_cases heq : b = n
      · rw [heq, hb]
        simp
      · rw [decide_eq_false heq, Bool.or_false, Bool.or_false]

/-- The scan marks the bad blocks. -/
theorem alNandScanBadBlocks_spec (chip : BenandChip) :
    ∃ ctx, benandContext.alNandScanBadBlocks chip = .ok ctx ∧ Scanned chip ctx := by
  obtain ⟨c, hc, hpost⟩ := forFrom_total (n := 1024) (i := 0)
    (s := List.replicate 128 (0 : UInt8)) (I := MapInv chip) (E := fun _ => False)
    (by
      intro n map _ hn hmap
      obtain ⟨map', hrun, hmap'⟩ := scanBadBlock_spec (by omega) hmap
      exact ⟨_, hrun, hmap'⟩)
    ⟨List.length_replicate, fun b => by
      rw [markedIn_replicate, decide_eq_false (Nat.not_lt_zero b), Bool.false_and]⟩
  have hrun : benandContext.alNandScanBadBlocks chip =
      .ok { benandContext with badBlockMap := c.state } := by
    rw [AlNandContext.alNandScanBadBlocks,
      show benandContext.numBlocks.toNat = 1024 from rfl,
      show List.replicate benandContext.badBlockMap.length (0 : UInt8) = List.replicate 128 0
        by rw [show benandContext.badBlockMap.length = 128 from List.length_replicate], hc]
    rfl
  cases c with
  | exit map => exact hpost.elim
  | next map =>
      refine ⟨_, hrun, rfl, hpost.size_eq, fun b hb => ?_⟩
      exact (hpost.marked b).trans (by rw [decide_eq_true (by omega), Bool.true_and])

theorem Scanned.isBlockBad {ctx : AlNandContext} (h : Scanned chip ctx) (block : UInt32) :
    ctx.alNandIsBlockBad block =
      .ok (if block.toNat < 1024 then chip.badBlock block.toNat else true) := by
  have hnum : ctx.numBlocks = 1024 := by rw [h.fields]; rfl
  rw [AlNandContext.alNandIsBlockBad, hnum]
  by_cases hlt : block.toNat < 1024
  · have hin : ¬ block ≥ 1024 := by
      rw [ge_iff_le, UInt32.le_iff_toNat_le, show (1024 : UInt32).toNat = 1024 from rfl]
      omega
    have hbyte : (block / 8).toNat = block.toNat / 8 := UInt32.toNat_div _ _
    rw [if_neg hin, if_pos hlt, hbyte, loadAt_ok (by rw [h.size_eq]; omega), ok_bind,
      ← h.marked _ hlt, markedIn]
    congr 1
    rw [Bool.eq_iff_iff, bne_iff_ne]
    exact and_bit_ne_zero_iff (toNat_badBlockBit block)
  · have hout : block ≥ 1024 := by
      rw [ge_iff_le, UInt32.le_iff_toNat_le, show (1024 : UInt32).toNat = 1024 from rfl]
      omega
    rw [if_pos hout, if_neg hlt]

end Scan

/-! ## Reading -/

section Read

variable {chip : BenandChip} {ctx : AlNandContext}

/-- What a read puts in the place of a 32-bit page number: past the last block
everything counts as bad. -/
def servedAt (chip : BenandChip) (page : UInt32) : List UInt8 :=
  if page.toNat < 65536 then chip.served page.toNat else List.replicate 2048 0xFF

theorem length_servedAt (chip : BenandChip) (page : UInt32) :
    (servedAt chip page).length = 2048 := by
  rw [servedAt, BenandChip.served]
  split
  · split
    · exact List.length_replicate
    · exact List.length_ofFn
  · exact List.length_replicate

/-- The pages a read has put in the buffer after `j` rounds. -/
def servedFrom (chip : BenandChip) (page : UInt32) (j : Nat) : List UInt8 :=
  (List.range j).flatMap fun i => servedAt chip (page + UInt32.ofNat i)

theorem servedFrom_succ (chip : BenandChip) (page : UInt32) (j : Nat) :
    servedFrom chip page (j + 1) =
      servedFrom chip page j ++ servedAt chip (page + UInt32.ofNat j) := by
  rw [servedFrom, List.range_succ, List.flatMap_append, List.flatMap_singleton]
  rfl

theorem length_servedFrom (chip : BenandChip) (page : UInt32) :
    ∀ j, (servedFrom chip page j).length = 2048 * j
  | 0 => rfl
  | j + 1 => by
      rw [servedFrom_succ, List.length_append, length_servedFrom chip page j, length_servedAt,
        Nat.mul_succ]

/-- A transfer of `n` pages from `page` on, `j` of them done. -/
structure ReadInv (chip : BenandChip) (page : UInt32) (n : Nat) (buffer : List UInt8)
    (st : AlNandContext.ReadBlocksState) : Prop where
  pages : ∃ j, j + st.numPages.toNat = n ∧ st.page = page + UInt32.ofNat j
    ∧ st.done = 2048 * j
    ∧ st.buffer = servedFrom chip page j ++ buffer.drop (2048 * j)

/-- No read of a page of the chip fails. -/
def BenandChip.ReadsPages (chip : BenandChip) : Prop :=
  ∀ page : UInt32, page.toNat < 65536 → chip.pageFails page = false

theorem readBlocksRound_spec (hctx : Scanned chip ctx) (hreads : chip.ReadsPages)
    {page : UInt32} {n : Nat} {buffer : List UInt8} (hroom : 2048 * n ≤ buffer.length)
    {st : AlNandContext.ReadBlocksState} (hst : ReadInv chip page n buffer st) :
    ∃ c, ctx.readBlocksRound chip st = .ok c
      ∧ c.Post
        (fun st' => ReadInv chip page n buffer st'
          ∧ st'.numPages.toNat < st.numPages.toNat)
        (fun r => r = (.success, servedFrom chip page n ++ buffer.drop (2048 * n))) := by
  obtain ⟨j, hj, hpage, hdone, hbuffer⟩ := hst
  have hsize : ctx.pageSize.toNat = 2048 := by rw [hctx.fields]; rfl
  have hper : ctx.pagesPerBlock = 64 := by rw [hctx.fields]; rfl
  rw [AlNandContext.readBlocksRound]
  by_cases hmore : st.numPages > 0
  · rw [if_pos hmore]
    dsimp only
    rw [gt_iff_lt, UInt32.lt_iff_toNat_lt] at hmore
    have hpos : 0 < st.numPages.toNat := hmore
    have hblock : (st.page / ctx.pagesPerBlock).toNat = st.page.toNat / 64 := by
      rw [hper]
      exact UInt32.toNat_div _ _
    rw [hctx.isBlockBad, ok_bind, hblock, hsize]
    -- in a bad block the page is not read, elsewhere the read succeeds
    have hdata : (if (if st.page.toNat / 64 < 1024 then chip.badBlock (st.page.toNat / 64)
          else true) = true
        then (.ok (List.replicate 2048 0xFF) : Except EfiStatus (List UInt8))
        else chip.alNandReadPage st.page) = .ok (servedAt chip st.page) := by
      rw [servedAt, BenandChip.served, UInt32.ofNat_toNat]
      by_cases hin : st.page.toNat < 65536
      · rw [if_pos (show st.page.toNat / 64 < 1024 by omega), if_pos hin,
          BenandChip.alNandReadPage, hreads _ hin]
        cases chip.badBlock (st.page.toNat / 64) with
        | false => simp only [Bool.false_eq_true, if_false]
        | true => simp only [if_true]
      · rw [if_neg (show ¬ st.page.toNat / 64 < 1024 by omega), if_neg hin, if_pos rfl]
    rw [hdata]
    dsimp only
    have hlen := length_servedAt chip st.page
    have hless : (st.numPages - 1).toNat = st.numPages.toNat - 1 :=
      UInt32.toNat_sub_of_le _ _ (UInt32.le_iff_toNat_le.mpr hpos)
    rw [hbuffer, hdone, storeSlice_behind (length_servedFrom chip page j) (by omega), ok_bind,
      hlen, ← Nat.mul_succ, hpage, ← servedFrom_succ]
    refine ⟨_, rfl, ⟨j + 1, ?_, ?_, rfl, rfl⟩, ?_⟩
    · dsimp only
      omega
    · dsimp only
      rw [UInt32.add_assoc, UInt32.ofNat_add]
      rfl
    · dsimp only
      omega
  · rw [if_neg hmore]
    have hzero : st.numPages.toNat = 0 := by
      rw [gt_iff_lt, UInt32.lt_iff_toNat_lt] at hmore
      simpa using hmore
    obtain rfl : j = n := by omega
    rw [hbuffer]
    exact ⟨_, rfl, rfl⟩

/-- A read that passes its check, whatever its arguments: the pages of its
32-bit page numbers. -/
theorem readBlocks_run (hctx : Scanned chip ctx) (hreads : chip.ReadsPages)
    (lba : UInt64) {bufferSize : UInt64} (hpos : bufferSize ≠ 0) (hmul : bufferSize % 2048 = 0)
    {buffer : List UInt8} (hbuffer : buffer.length = bufferSize.toNat) :
    ctx.alNandBlockIoReadBlocks chip 0 lba bufferSize (some buffer) =
      if lba.toUInt32 + (bufferSize / 2048).toUInt32 > 65536 then
        .ok (.invalidParameter, some buffer)
      else
        .ok (.success, some
          (servedFrom chip lba.toUInt32 (bufferSize / 2048).toUInt32.toNat
            ++ buffer.drop (2048 * (bufferSize / 2048).toUInt32.toNat))) := by
  have hsize : ctx.pageSize.toUInt64 = 2048 := by rw [hctx.fields]; rfl
  have hnum : ctx.numPages = 65536 := by rw [hctx.fields]; rfl
  have hmedia : ctx.mediaId = 0 := by rw [hctx.fields]; rfl
  have hroom : 2048 * (bufferSize / 2048).toUInt32.toNat ≤ buffer.length := by
    rw [hbuffer, UInt64.toNat_toUInt32, UInt64.toNat_div, show (2048 : UInt64).toNat = 2048 from rfl]
    omega
  unfold AlNandContext.alNandBlockIoReadBlocks
  simp only [hsize, hnum, hmedia, hmul, hpos, ne_eq, not_true_eq_false, if_false]
  split
  · rfl
  · obtain ⟨r, hr, rfl⟩ := loopFuel_total
      (k := (bufferSize / 2048).toUInt32.toNat + 1)
      (I := ReadInv chip lba.toUInt32 (bufferSize / 2048).toUInt32.toNat buffer)
      (μ := fun st => st.numPages.toNat)
      (fun st hst => readBlocksRound_spec hctx hreads hroom hst)
      (s := { page := lba.toUInt32, numPages := (bufferSize / 2048).toUInt32
              done := 0, buffer := buffer })
      ⟨0, Nat.zero_add _, (UInt32.add_zero _).symm, rfl, by rw [Nat.mul_zero]; rfl⟩
      (Nat.lt_succ_self _)
    rw [hr]
    rfl

/-- What the arguments ask for: the pages from `lba` on, `n` of them. -/
def BenandChip.pages (chip : BenandChip) (lba n : Nat) : List UInt8 :=
  (List.range n).flatMap fun i => chip.served (lba + i)

/-- Inside the device the 32-bit page numbers are the ones that are meant. -/
theorem servedFrom_eq_pages {page : UInt32} {n : Nat} (h : page.toNat + n ≤ 65536) :
    servedFrom chip page n = chip.pages page.toNat n := by
  rw [servedFrom, BenandChip.pages, List.flatMap_def, List.flatMap_def]
  congr 1
  apply List.map_congr_left
  intro i hi
  have hlt : i < n := List.mem_range.mp hi
  have hplace : (page + UInt32.ofNat i).toNat = page.toNat + i := by
    rw [UInt32.toNat_add, UInt32.toNat_ofNat_of_lt' (show i < 4294967296 by omega)]
    omega
  rw [servedAt, hplace, if_pos (by omega)]

/-- The law of `ReadBlocks`: it succeeds just when the range is inside the
device, with the pages of the range, and fails with the buffer as it was. -/
def ReadsRange (ctx : AlNandContext) (chip : BenandChip) (lba bufferSize : UInt64)
    (buffer : List UInt8) : Prop :=
  ∃ status buffer',
    ctx.alNandBlockIoReadBlocks chip 0 lba bufferSize (some buffer) =
        .ok (status, some buffer')
      ∧ (status = .success ↔ lba.toNat + bufferSize.toNat / 2048 ≤ 65536)
      ∧ (status = .success → buffer' = chip.pages lba.toNat (bufferSize.toNat / 2048))
      ∧ (status ≠ .success → buffer' = buffer)

theorem readsRange_cond (hctx : Scanned chip ctx) (hreads : chip.ReadsPages)
    {lba bufferSize : UInt64} (hpos : bufferSize ≠ 0) (hmul : bufferSize % 2048 = 0)
    {buffer : List UInt8} (hbuffer : buffer.length = bufferSize.toNat) :
    ReadsRange ctx chip lba bufferSize buffer ↔
      lba.toNat + bufferSize.toNat / 2048 ≤ 65536
        ∨ 65536 < (lba.toNat + bufferSize.toNat / 2048) % 4294967296 := by
  have hrun := readBlocks_run hctx hreads lba hpos hmul hbuffer
  have hpages : (bufferSize / 2048).toUInt32.toNat = bufferSize.toNat / 2048 % 4294967296 := by
    rw [UInt64.toNat_toUInt32, UInt64.toNat_div]
    rfl
  have hlba : lba.toUInt32.toNat = lba.toNat % 4294967296 := UInt64.toNat_toUInt32 lba
  have hcheck : lba.toUInt32 + (bufferSize / 2048).toUInt32 > 65536 ↔
      65536 < (lba.toNat + bufferSize.toNat / 2048) % 4294967296 := by
    rw [gt_iff_lt, UInt32.lt_iff_toNat_lt, UInt32.toNat_add, hlba, hpages,
      show (65536 : UInt32).toNat = 65536 from rfl]
    omega
  have hexact : 2048 * (bufferSize.toNat / 2048) = buffer.length := by
    have hzero := congrArg UInt64.toNat hmul
    rw [UInt64.toNat_mod, show (2048 : UInt64).toNat = 2048 from rfl,
      show (0 : UInt64).toNat = 0 from rfl] at hzero
    omega
  by_cases hover : lba.toUInt32 + (bufferSize / 2048).toUInt32 > 65536
  · -- rejected
    rw [if_pos hover] at hrun
    have hout := hcheck.mp hover
    refine iff_of_true ⟨_, _, hrun, ?_, by simp, fun _ => rfl⟩ (.inr hout)
    exact iff_of_false (by simp) (by omega)
  · rw [if_neg hover] at hrun
    have hin := mt hcheck.mpr hover
    constructor
    · rintro ⟨status, buffer', hrun', hiff, -⟩
      rw [hrun] at hrun'
      obtain ⟨rfl, -⟩ := Prod.mk.inj (Except.ok.inj hrun')
      exact .inl (hiff.mp rfl)
    · intro hrange
      have hfits : lba.toNat + bufferSize.toNat / 2048 ≤ 65536 := by omega
      have hn : (bufferSize / 2048).toUInt32.toNat = bufferSize.toNat / 2048 := by omega
      have hl : lba.toUInt32.toNat = lba.toNat := by omega
      refine ⟨_, _, hrun, iff_of_true rfl hfits, fun _ => ?_, fun h => absurd rfl h⟩
      rw [hn, hexact, List.drop_length, List.append_nil,
        servedFrom_eq_pages (by rw [hl]; exact hfits), hl]

/-- A read obeys the law exactly when its range is inside the device, or ends
past the device modulo 2^32 as well. -/
theorem readsRange_iff (hscan : benandContext.alNandScanBadBlocks chip = .ok ctx)
    (hreads : chip.ReadsPages) {lba bufferSize : UInt64} (hpos : bufferSize ≠ 0)
    (hmul : bufferSize % 2048 = 0) {buffer : List UInt8}
    (hbuffer : buffer.length = bufferSize.toNat) :
    ReadsRange ctx chip lba bufferSize buffer ↔
      lba.toNat + bufferSize.toNat / 2048 ≤ 65536
        ∨ 65536 < (lba.toNat + bufferSize.toNat / 2048) % 4294967296 := by
  obtain ⟨ctx', hscan', hctx⟩ := alNandScanBadBlocks_spec chip
  obtain rfl := Except.ok.inj (hscan'.symm.trans hscan)
  exact readsRange_cond hctx hreads hpos hmul hbuffer

end Read

/-- A chip of zeros, without bad blocks. -/
def zeroChip : BenandChip where
  page _ _ := 0
  oob _ := 0xFF
  pageFails _ := false
  oobFails _ := false

/-- The first page. -/
theorem readsRange_iff_first :
    ∃ ctx, benandContext.alNandScanBadBlocks zeroChip = .ok ctx
      ∧ ReadsRange ctx zeroChip 0 2048 (List.replicate 2048 1) := by
  obtain ⟨ctx, hscan, -⟩ := alNandScanBadBlocks_spec zeroChip
  exact ⟨ctx, hscan, (readsRange_iff hscan (fun _ _ => rfl) (by decide) (by decide)
    List.length_replicate).mpr (.inl (by decide))⟩

/-- Page 2^32 is read as page 0. -/
theorem not_readsRange_wide :
    ∃ ctx, benandContext.alNandScanBadBlocks zeroChip = .ok ctx
      ∧ ¬ ReadsRange ctx zeroChip 0x100000000 2048 (List.replicate 2048 1) := by
  obtain ⟨ctx, hscan, hctx⟩ := alNandScanBadBlocks_spec zeroChip
  refine ⟨ctx, hscan, fun hlaw => ?_⟩
  have hrange := (readsRange_cond hctx (fun _ _ => rfl) (by decide) (by decide)
    List.length_replicate).mp hlaw
  exact absurd hrange (by decide)

end Ccr2004
