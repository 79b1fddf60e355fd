import Ccr2004.FatContainment

/-!
# What a FAT reader makes of the volume

The count of clusters is derived from the bytes of the boot sector that a
run of `FormatFat` wrote. `fat16_reader` and `fat32_reader` give what a
reader gets in terms of the sizing; a FAT16 table was sized for at least the
clusters there are, a FAT32 table only when its second estimate leaves the
count as it was (`fatCapacity_iff`).
-/

namespace Ccr2004

/-! ## The reader -/

/-- `FATSz16`, or `FATSz32` when that is zero. -/
def readFatSize (sector : List UInt8) : Nat :=
  if (Bpb.read sector).fatSz16 = 0 then (readWord32 sector 36).toNat
  else (Bpb.read sector).fatSz16.toNat

/-- Bytes of a FAT entry. -/
def readEntrySize (sector : List UInt8) : Nat :=
  if (Bpb.read sector).fatSz16 = 0 then 4 else 2

def Bpb.rootDirSectors (b : Bpb) : Nat :=
  (b.rootEntCnt.toNat * 32 + (b.bytsPerSec.toNat - 1)) / b.bytsPerSec.toNat

/-- The count of clusters. -/
def readClusters (sector : List UInt8) : Nat :=
  let b := Bpb.read sector
  (b.totalSectors - (b.rsvdSecCnt.toNat + b.numFats.toNat * readFatSize sector
    + b.rootDirSectors)) / b.secPerClus.toNat

/-- `Free_Count`. -/
def readFreeCount (sector : List UInt8) : Nat :=
  (readWord32 sector 488).toNat

/-- A boot sector whose sectors are the blocks of the device, with an entry
for every cluster in each FAT; and for FAT32 both FSInfo sectors count all
clusters but that of the root directory as free. -/
structure VolumeCapacity (blockSize : UInt32) (boot : BlockWrite) (ws : List BlockWrite) :
    Prop where
  sectorSize : (Bpb.read boot.data).bytsPerSec.toNat = blockSize.toNat
  entries : (readClusters boot.data + 2) * readEntrySize boot.data
    ≤ readFatSize boot.data * (Bpb.read boot.data).bytsPerSec.toNat
  freeCount : (Bpb.read boot.data).fatSz16 = 0 →
    ∀ w ∈ ws, w.lba = boot.lba + 1 ∨ w.lba = boot.lba + 7 →
      readFreeCount w.data + 1 = readClusters boot.data

/-- The writes of a run start with the boot sector of such a volume. -/
def FatCapacity (blockSize : UInt32) (ws : List BlockWrite) : Prop :=
  ∃ boot, ws.head? = some boot ∧ VolumeCapacity blockSize boot ws

/-! ## FAT16 -/

/-- A division rounded up covers the dividend, by less than one divisor. -/
theorem ceilDiv_bounds {n b : Nat} (hb : 0 < b) :
    n ≤ (n + (b - 1)) / b * b ∧ (n + (b - 1)) / b * b < n + b := by
  have hdiv := Nat.div_add_mod (n + (b - 1)) b
  have hmod := Nat.mod_lt (n + (b - 1)) hb
  rw [Nat.mul_comm] at hdiv
  omega

/-- An accepted FAT16 table does not wrap and has an entry for each of its
clusters. -/
theorem Fat16Sizing.table_bounds {b p : Nat} {root : UInt32} {z : FatSizing} (hb : 512 ≤ b)
    (hb' : b ≤ 65535) (h : Fat16Sizing b p root z) :
    1 ≤ z.fatSz.toNat ∧ z.fatSz.toNat < 2 ^ 16
      ∧ (z.totalClusters.toNat + 2) * 2 ≤ z.fatSz.toNat * b := by
  have hs := h.cluster.1
  have hcount := h.count.2
  have hfits := h.fits
  have hclus := h.clusters
  have htable := h.table
  generalize z.fatSz.toNat = F at *
  generalize z.secPerClus.toNat = s at *
  have hdiff := div_sub_div_le hs (show 2 * F ≤ p - 1 - root.toNat by omega)
  have hest : (p - (1 + 2 * F + root.toNat)) / s ≤ (p - 1 - root.toNat) / s :=
    Nat.div_le_div_right (by omega)
  rw [show p - 1 - root.toNat - 2 * F = p - (1 + 2 * F + root.toNat) by omega, ← hclus] at hdiff
  rw [← hclus] at hest
  generalize (p - 1 - root.toNat) / s = estimate at *
  have hF : F * 512 ≤ 2 ^ 32 := by
    have hmul := Nat.div_mul_le_self (((estimate + 2) * 2 + (b - 1)) % 2 ^ 32) b
    have hmono := Nat.mul_le_mul_left F hb
    rw [← htable] at hmul
    omega
  rw [Nat.mod_eq_of_lt (by omega)] at htable
  obtain ⟨hlow, hhigh⟩ := ceilDiv_bounds (n := (estimate + 2) * 2) (show 0 < b by omega)
  rw [← htable] at hlow hhigh
  have hpos : 1 ≤ F := by
    rw [htable, Nat.le_div_iff_mul_le (by omega)]
    omega
  have hprev : (F - 1) * 512 ≤ (F - 1) * b := Nat.mul_le_mul_left _ hb
  have hsplit : F * b = (F - 1) * b + b := by
    rw [← Nat.succ_mul]
    congr 1
    omega
  exact ⟨hpos, by omega, by omega⟩

/-- What a reader gets of a FAT16 volume. -/
theorem fat16_reader {blockSize : UInt32} {partSectors : UInt64} (first : UInt64)
    {z : FatSizing}
    (hB : 512 ≤ blockSize.toNat) (hB' : blockSize.toNat ≤ 65535)
    (hP : partSectors.toNat < 2 ^ 32)
    (h : Fat16Sizing blockSize.toNat partSectors.toNat (fat16RootDirSectors blockSize) z) :
    let sector := padded blockSize.toNat (bootSector blockSize partSectors first z)
    readClusters sector = z.totalClusters.toNat ∧ readFatSize sector = z.fatSz.toNat
      ∧ readEntrySize sector = 2 ∧ (Bpb.read sector).fatSz16 ≠ 0
      ∧ (Bpb.read sector).bytsPerSec.toNat = blockSize.toNat := by
  intro sector
  obtain ⟨hF, hF', _⟩ := h.table_bounds hB hB'
  have hread : Bpb.read sector = fat16Bpb blockSize partSectors first z := by
    simp only [sector]
    rw [padded_of_le (by rw [length_bootSector]; exact hB), read_bootSector, fatBpb, h.fat16]
    rfl
  have hsize : (fat16Bpb blockSize partSectors first z).fatSz16.toNat = z.fatSz.toNat := by
    show z.fatSz.toUInt16.toNat = _
    rw [UInt32.toNat_toUInt16, Nat.mod_eq_of_lt hF']
  have hne : (fat16Bpb blockSize partSectors first z).fatSz16 ≠ 0 := by
    intro hzero
    rw [hzero, show (0 : UInt16).toNat = 0 from rfl] at hsize
    omega
  have hbytes : (fat16Bpb blockSize partSectors first z).bytsPerSec.toNat = blockSize.toNat := by
    show blockSize.toUInt16.toNat = _
    rw [UInt32.toNat_toUInt16, Nat.mod_eq_of_lt (by omega)]
  have hclus : (fat16Bpb blockSize partSectors first z).secPerClus.toNat = z.secPerClus.toNat := by
    show z.secPerClus.toUInt8.toNat = _
    have hlt := h.cluster.2
    rw [UInt32.toNat_toUInt8, Nat.mod_eq_of_lt (by omega)]
  have htotal : (fat16Bpb blockSize partSectors first z).totalSectors = partSectors.toNat := by
    have hsectors := totalSectors_fatBpb blockSize partSectors first z
    rw [fatBpb, h.fat16, Nat.mod_eq_of_lt hP] at hsectors
    exact hsectors
  have hroot : (fat16Bpb blockSize partSectors first z).rootDirSectors
      = (fat16RootDirSectors blockSize).toNat := by
    have hentries : (fat16Bpb blockSize partSectors first z).rootEntCnt.toNat = 512 := rfl
    rw [fat16RootDirSectors_eq, (gptEntriesLbas_of_le hB (by omega)).1, Bpb.rootDirSectors, hbytes,
      hentries]
  have hrsvd : (fat16Bpb blockSize partSectors first z).rsvdSecCnt.toNat = 1 := by
    show z.rsvdSecCnt.toUInt16.toNat = 1
    rw [h.reserved]
    rfl
  have hfat : readFatSize sector = z.fatSz.toNat := by
    rw [readFatSize, hread, if_neg hne, hsize]
  refine ⟨?_, hfat, ?_, ?_, ?_⟩
  · have hfats : (fat16Bpb blockSize partSectors first z).numFats.toNat = 2 := rfl
    rw [readClusters, hread, hfat, htotal, hrsvd, hroot, hclus, h.clusters, hfats]
  · rw [readEntrySize, hread, if_neg hne]
  · rw [hread]
    exact hne
  · rw [hread, hbytes]

/-! ## FAT32 -/

theorem readWord32_fatSz32 (blockSize : UInt32) (partSectors first : UInt64) (z : FatSizing)
    (hfat : z.useFat32 = true) (post : List UInt8) :
    readWord32 (bootSector blockSize partSectors first z ++ post) 36 = z.fatSz := by
  obtain ⟨hjmp, hoem⟩ := fatBpb_lengths blockSize partSectors first z
  have hlen := Bpb.length_bytes _ hjmp hoem
  rw [bootSector, if_pos hfat, List.append_assoc, readWord32, slice_append_of_le (by omega), hlen,
    fat32Extension]
  simp only [List.append_assoc, Nat.sub_self]
  rw [slice_append_here (length_leBytes ..), readWord32_leBytes]

/-- What a reader gets of a FAT32 volume. -/
theorem fat32_reader {blockSize : UInt32} {partSectors : UInt64} (first : UInt64)
    {z : FatSizing} {estimate : Nat} (hB : 512 ≤ blockSize.toNat) (hP : partSectors.toNat < 2 ^ 32)
    (h : Fat32Sizing blockSize.toNat partSectors.toNat estimate z) :
    let sector := padded blockSize.toNat (bootSector blockSize partSectors first z)
    readClusters sector = (partSectors.toNat - 32 - 2 * z.fatSz.toNat) / z.secPerClus.toNat
      ∧ readFatSize sector = z.fatSz.toNat ∧ readEntrySize sector = 4
      ∧ (Bpb.read sector).fatSz16 = 0
      ∧ (Bpb.read sector).bytsPerSec.toNat = blockSize.toNat % 2 ^ 16 := by
  intro sector
  have hsector : sector = bootSector blockSize partSectors first z
      ++ List.replicate (blockSize.toNat - 512) 0 := by
    simp only [sector]
    rw [padded_of_le (by rw [length_bootSector]; exact hB), length_bootSector]
  have hread : Bpb.read sector = fat32Bpb blockSize partSectors first z := by
    rw [hsector, read_bootSector, fatBpb, h.fat32]
    rfl
  have hclus : (fat32Bpb blockSize partSectors first z).secPerClus.toNat = z.secPerClus.toNat := by
    show z.secPerClus.toUInt8.toNat = _
    have hlt := h.cluster.2
    rw [UInt32.toNat_toUInt8, Nat.mod_eq_of_lt (by omega)]
  have htotal : (fat32Bpb blockSize partSectors first z).totalSectors = partSectors.toNat := by
    have hsectors := totalSectors_fatBpb blockSize partSectors first z
    rw [fatBpb, h.fat32, Nat.mod_eq_of_lt hP] at hsectors
    exact hsectors
  have hroot : (fat32Bpb blockSize partSectors first z).rootDirSectors = 0 := by
    have hentries : (fat32Bpb blockSize partSectors first z).rootEntCnt.toNat * 32 = 0 := rfl
    rw [Bpb.rootDirSectors, hentries, Nat.zero_add]
    generalize (fat32Bpb blockSize partSectors first z).bytsPerSec.toNat = n
    cases n with
    | zero => rfl
    | succ n => exact Nat.div_eq_of_lt (by omega)
  have hrsvd : (fat32Bpb blockSize partSectors first z).rsvdSecCnt.toNat = 32 := by
    show z.rsvdSecCnt.toUInt16.toNat = 32
    rw [h.reserved]
    rfl
  have hfat : readFatSize sector = z.fatSz.toNat := by
    rw [readFatSize, hread, hsector, readWord32_fatSz32 _ _ _ _ h.fat32]
    rfl
  refine ⟨?_, hfat, ?_, ?_, ?_⟩
  · rw [readClusters, hread, hfat, htotal, hrsvd, hroot, hclus]
    have hfats : (fat32Bpb blockSize partSectors first z).numFats.toNat = 2 := rfl
    rw [hfats, Nat.add_zero, Nat.sub_add_eq]
  · rw [readEntrySize, hread]
    rfl
  · rw [hread]
    rfl
  · rw [hread]
    exact UInt32.toNat_toUInt16 blockSize

theorem readFreeCount_fsInfo (clusters : UInt32) (post : List UInt8) :
    readFreeCount (fsInfo clusters ++ post) = (clusters - 1).toNat := by
  have hpre : (leBytes 4 0x41615252 ++ (List.replicate 480 (0 : UInt8)
      ++ leBytes 4 0x61417272)).length = 488 := by
    simp only [List.length_append, length_leBytes, List.length_replicate]
  have hslice := slice_mid (leBytes 4 3 ++ (List.replicate 12 0 ++ (leBytes 4 0xAA550000 ++ post)))
    hpre (length_leBytes 4 (clusters - 1).toNat)
  simp only [List.append_assoc] at hslice
  rw [readFreeCount, readWord32, fsInfo]
  simp only [List.append_assoc]
  rw [hslice, readWord32_leBytes]

/-- Taking some more sectors off leaves the count of clusters as it is. -/
theorem add_div_eq_iff {a d s : Nat} (hs : 0 < s) : (a + d) / s = a / s ↔ a % s + d < s := by
  have hdiv := Nat.div_add_mod a s
  rw [show a + d = a % s + d + s * (a / s) by omega, Nat.add_mul_div_left _ _ hs]
  constructor
  · intro h
    exact (Nat.div_eq_zero_iff_lt hs).mp (by omega)
  · intro h
    rw [Nat.div_eq_of_lt h, Nat.zero_add]

/-! ## The condition -/

/-- The count of FAT32 clusters is the same for the first estimate of the
table size and for the second, and neither wraps in 32 bits. -/
def Fat32Settles (b p : Nat) : Prop :=
  let s := if 32768 ≤ b then 1 else 32768 / b
  let q := p - 32
  let estimate := ((q / s + 2) * 4 + (b - 1)) / b
  let table := (((q - 2 * estimate) / s + 2) * 4 + (b - 1)) / b
  (q / s + 2) * 4 + (b - 1) < 2 ^ 32 ∧ (q - 2 * estimate) % s + 2 * (estimate - table) < s

instance (b p : Nat) : Decidable (Fat32Settles b p) :=
  inferInstanceAs (Decidable (_ ∧ _))

/-- `BytsPerSec` holds the block size, and a FAT16 cluster size fits or the
FAT32 sizing settles. -/
def FatCapacitySizes (blockSize : UInt32) (totalBlocks : UInt64) : Prop :=
  blockSize.toNat ≤ 65535
    ∧ ((∃ i < 7, tryFat16 blockSize (partSectors blockSize totalBlocks) i ≠ none)
      ∨ Fat32Settles blockSize.toNat (partSectors blockSize totalBlocks).toNat)

/-- Over the naturals the two estimates settle exactly when a reader's count
is the one the table was sized for. -/
theorem fat32Settles_iff {b p estimate : Nat} {z : FatSizing} (hb : 512 ≤ b) (hb' : b < 2 ^ 32)
    (hs : z.secPerClus.toNat = if 32768 ≤ b then 1 else 32768 / b)
    (h : Fat32Sizing b p estimate z) :
    Fat32Settles b p ↔
      ((p - 32 - 2 * z.fatSz.toNat) / z.secPerClus.toNat + 2) * 4 ≤ z.fatSz.toNat * b
        ∧ z.totalClusters.toNat = (p - 32 - 2 * z.fatSz.toNat) / z.secPerClus.toNat := by
  have hpos := h.cluster.1
  have hroom := h.room
  have hle := h.table_le
  have hclus := h.clusters
  have hest := h.estimate
  have htable := h.table
  have hdiff := div_sub_div_le hpos (show 2 * estimate ≤ p - 32 by omega)
  have hback : p - 32 - 2 * z.fatSz.toNat
      = p - 32 - 2 * estimate + 2 * (estimate - z.fatSz.toNat) := by omega
  unfold Fat32Settles
  simp only [← hs]
  rw [← hclus] at hdiff
  rw [hback, hclus]
  constructor
  · rintro ⟨hwrap, hrest⟩
    have hest' : estimate
        = (((p - 32) / z.secPerClus.toNat + 2) * 4 + (b - 1)) / b := by
      rw [hest, fat32Dividend, Nat.mod_eq_of_lt hwrap]
    rw [← hest', ← hclus] at hrest
    have hmono : z.totalClusters.toNat ≤ (p - 32) / z.secPerClus.toNat := by
      rw [hclus]
      exact Nat.div_le_div_right (by omega)
    have htable' : z.fatSz.toNat = ((z.totalClusters.toNat + 2) * 4 + (b - 1)) / b := by
      rw [htable, fat32Dividend, Nat.mod_eq_of_lt (by omega)]
    rw [← htable'] at hrest
    have hsame := (add_div_eq_iff (by omega)).mpr hrest
    rw [hsame, ← hclus, htable']
    exact ⟨(ceilDiv_bounds (by omega)).1, rfl⟩
  · rintro ⟨hentries, hsame⟩
    rw [← hsame, ← hclus] at hentries
    have hmul : z.fatSz.toNat * b ≤ fat32Dividend b z.totalClusters.toNat := by
      rw [htable]
      exact Nat.div_mul_le_self _ _
    have hmul' : 512 * estimate ≤ fat32Dividend b ((p - 32) / z.secPerClus.toNat) := by
      rw [hest]
      exact Nat.le_trans (Nat.mul_le_mul_right _ hb) (Nat.mul_div_le _ _)
    -- entries for all clusters leave no room for a wrapped dividend
    have hwrap : ((p - 32) / z.secPerClus.toNat + 2) * 4 + (b - 1) < 2 ^ 32 := by
      simp only [fat32Dividend] at hmul hmul'
      omega
    have hest' : estimate
        = (((p - 32) / z.secPerClus.toNat + 2) * 4 + (b - 1)) / b := by
      rw [hest, fat32Dividend, Nat.mod_eq_of_lt hwrap]
    have hmono : z.totalClusters.toNat ≤ (p - 32) / z.secPerClus.toNat := by
      rw [hclus]
      exact Nat.div_le_div_right (by omega)
    have htable' : z.fatSz.toNat = ((z.totalClusters.toNat + 2) * 4 + (b - 1)) / b := by
      rw [htable, fat32Dividend, Nat.mod_eq_of_lt (by omega)]
    refine ⟨hwrap, ?_⟩
    rw [← hest', ← hclus, ← htable']
    exact (add_div_eq_iff (by omega)).mp hsame.symm

/-! ## The written volume -/

theorem readFreeCount_padded {blockSize : UInt32} (hB : 512 ≤ blockSize.toNat)
    {clusters : UInt32} (hpos : 1 ≤ clusters.toNat) :
    readFreeCount (padded blockSize.toNat (fsInfo clusters)) + 1 = clusters.toNat := by
  have hsub : (clusters - 1).toNat = clusters.toNat - 1 :=
    UInt32.toNat_sub_of_le _ _ (UInt32.le_iff_toNat_le.mpr hpos)
  rw [padded_of_le (by rw [length_fsInfo]; exact hB), readFreeCount_fsInfo, hsub]
  omega

/-- The blocks of a FAT32 volume at the places of FSInfo are FSInfo. -/
theorem fsInfo_of_mem {blockSize : UInt32} {partSectors first : UInt64} {z : FatSizing}
    {sectors : Nat} (hfat : z.useFat32 = true) (hin : z.Inside sectors) (hshape : z.Shape)
    (hlt : first.toNat + sectors ≤ 2 ^ 64) {b : UInt64 × List UInt8}
    (hb : b ∈ formatBlocks blockSize partSectors first z)
    (hlba : b.1 = first + 1 ∨ b.1 = first + 7) :
    b.2 = padded blockSize.toNat (fsInfo z.totalClusters) := by
  have hrsvd := (hshape.fat32 hfat).1
  have hroot := hin.root hfat
  have h1 : (first + 1).toNat = first.toNat + 1 := toNat_add_of_lt rfl rfl (by omega)
  have h6 : (first + 6).toNat = first.toNat + 6 := toNat_add_of_lt rfl rfl (by omega)
  have h7 : (first + 7).toNat = first.toNat + 7 := toNat_add_of_lt rfl rfl (by omega)
  have hnat : b.1.toNat = first.toNat + 1 ∨ b.1.toNat = first.toNat + 7 := by
    rcases hlba with h | h
    · exact .inl (by rw [h, h1])
    · exact .inr (by rw [h, h7])
  rcases List.mem_append.mp hb with hhead | harea
  · simp only [headBlocks, if_pos hfat, List.mem_cons, List.not_mem_nil, or_false] at hhead
    rcases hhead with rfl | rfl | rfl | rfl
    · dsimp only at hnat
      omega
    · dsimp only at hnat
      omega
    · rfl
    · rfl
  · have hafter := (areaBlocks_inside blockSize hin hshape hlt b harea).1
    omega

/-- A run of `FormatFat` that ends with success writes all blocks. -/
theorem formatFat_success {env : FormatEnv} {blockSize : UInt32} {totalBlocks : UInt64}
    {log log' : List BlockWrite} (hB : 512 ≤ blockSize.toNat)
    (h : formatFat env blockSize totalBlocks log = .ok (.success, log')) :
    (log'.drop log.length).map BlockWrite.block
      = formatBlocks blockSize (partSectors blockSize totalBlocks) (fatFirstUsable blockSize)
        (fatSizing blockSize (partSectors blockSize totalBlocks)) := by
  obtain ⟨status, ws, hrun, _, hall, _⟩ := writes_formatFat env hB totalBlocks log
  rw [h] at hrun
  obtain ⟨rfl, rfl⟩ := Prod.mk.inj (Except.ok.inj hrun)
  rw [List.drop_left]
  exact hall rfl

section Volume

variable {blockSize : UInt32} {sectors first : UInt64} {z : FatSizing} {ws : List BlockWrite}

theorem volume_boot (h : ws.map BlockWrite.block = formatBlocks blockSize sectors first z) :
    ∃ boot, ws.head? = some boot ∧ boot.lba = first
      ∧ boot.data = padded blockSize.toNat (bootSector blockSize sectors first z) := by
  obtain ⟨rest, hcons⟩ := formatBlocks_cons blockSize sectors first z
  rw [hcons] at h
  obtain ⟨boot, rest', hws, hboot, _⟩ := List.map_eq_cons_iff.mp h
  rw [hws]
  exact ⟨boot, rfl, congrArg Prod.fst hboot, congrArg Prod.snd hboot⟩

/-- The 16-bit field cannot hold a larger block size. -/
theorem capacity_blockSize (hB : 512 ≤ blockSize.toNat)
    (h : ws.map BlockWrite.block = formatBlocks blockSize sectors first z)
    (hcap : FatCapacity blockSize ws) : blockSize.toNat ≤ 65535 := by
  obtain ⟨boot, hboot, _, hdata⟩ := volume_boot h
  obtain ⟨boot', hboot', hvol⟩ := hcap
  rw [hboot] at hboot'
  obtain rfl := Option.some.inj hboot'
  have hsize := hvol.sectorSize
  have hlt := (Bpb.read boot.data).bytsPerSec.toNat_lt
  omega

theorem capacity_fat16 (hB : 512 ≤ blockSize.toNat) (hB' : blockSize.toNat ≤ 65535)
    (hP : sectors.toNat < 2 ^ 32)
    (hz : Fat16Sizing blockSize.toNat sectors.toNat (fat16RootDirSectors blockSize) z)
    (h : ws.map BlockWrite.block = formatBlocks blockSize sectors first z) :
    FatCapacity blockSize ws := by
  obtain ⟨boot, hboot, _, hdata⟩ := volume_boot h
  obtain ⟨hcount, hfat, hentry, hne, hbytes⟩ := fat16_reader first hB hB' hP hz
  rw [← hdata] at hcount hfat hentry hne hbytes
  refine ⟨boot, hboot, hbytes, ?_, fun hzero => absurd hzero hne⟩
  rw [hcount, hfat, hentry, hbytes]
  exact (hz.table_bounds hB hB').2.2

theorem capacity_fat32 {estimate : Nat} (hB : 512 ≤ blockSize.toNat)
    (hB' : blockSize.toNat ≤ 65535) (hP : sectors.toNat < 2 ^ 32) (hfirst : first.toNat < 2 ^ 32)
    (hs : z.secPerClus.toNat = if 32768 ≤ blockSize.toNat then 1 else 32768 / blockSize.toNat)
    (hz : Fat32Sizing blockSize.toNat sectors.toNat estimate z)
    (h : ws.map BlockWrite.block = formatBlocks blockSize sectors first z) :
    FatCapacity blockSize ws ↔ Fat32Settles blockSize.toNat sectors.toNat := by
  have hpos : 1 ≤ z.totalClusters.toNat := by
    have hroom := hz.room
    rw [hz.clusters, Nat.le_div_iff_mul_le (by have := hz.cluster; omega)]
    omega
  have hshape : z.Shape := by
    refine ⟨hz.cluster.1, fun h16 => ?_, fun _ => ?_⟩
    · rw [hz.fat32] at h16
      cases h16
    · rw [hz.reserved, hz.rootDir]
      exact ⟨rfl, rfl⟩
  obtain ⟨boot, hboot, hlba, hdata⟩ := volume_boot h
  obtain ⟨hcount, hfat, hentry, hzero, hbytes⟩ := fat32_reader first hB hP hz
  rw [← hdata] at hcount hfat hentry hzero hbytes
  rw [Nat.mod_eq_of_lt (by omega)] at hbytes
  have hfree := readFreeCount_padded hB hpos
  rw [fat32Settles_iff hB (by omega) hs hz]
  constructor
  · rintro ⟨boot', hboot', hvol⟩
    rw [hboot] at hboot'
    obtain rfl := Option.some.inj hboot'
    have hentries := hvol.entries
    rw [hcount, hfat, hentry, hbytes] at hentries
    refine ⟨hentries, ?_⟩
    -- the first FSInfo sector
    have hmem : (first + 1, padded blockSize.toNat (fsInfo z.totalClusters))
        ∈ ws.map BlockWrite.block := by
      rw [h, formatBlocks, headBlocks, if_pos hz.fat32]
      simp
    obtain ⟨w, hw, hblock⟩ := List.mem_map.mp hmem
    have hwlba : w.lba = first + 1 := congrArg Prod.fst hblock
    have hwdata : w.data = padded blockSize.toNat (fsInfo z.totalClusters) :=
      congrArg Prod.snd hblock
    have hinfo := hvol.freeCount hzero w hw (.inl (by rw [hlba, hwlba]))
    rw [hwdata, hfree, hcount] at hinfo
    exact hinfo
  · rintro ⟨hentries, hsame⟩
    refine ⟨boot, hboot, hbytes, ?_, fun _ w hw hplace => ?_⟩
    · rw [hcount, hfat, hentry, hbytes]
      exact hentries
    · rw [hlba] at hplace
      have hmem : w.block ∈ formatBlocks blockSize sectors first z := by
        rw [← h]
        exact List.mem_map_of_mem hw
      have hwdata := fsInfo_of_mem hz.fat32 hz.inside hshape (by omega) hmem hplace
      rw [show w.data = _ from hwdata, hfree, hcount, hsame]

end Volume

theorem fatCapacity_cond {env : FormatEnv} {blockSize : UInt32} {totalBlocks : UInt64}
    {log log' : List BlockWrite} (hB : 512 ≤ blockSize.toNat)
    (hrange : (fatFirstUsable blockSize).toNat < (fatLastUsable blockSize totalBlocks).toNat)
    (hsizes : FatSizes blockSize totalBlocks)
    (hfmt : formatFat env blockSize totalBlocks log = .ok (.success, log')) :
    FatCapacity blockSize (log'.drop log.length) ↔ FatCapacitySizes blockSize totalBlocks := by
  have hlbas := gptEntriesLbas_le hB
  have hfirst := toNat_fatFirstUsable hlbas
  obtain ⟨hP, hroom⟩ := (fatSizes_iff hB hrange).mp hsizes
  have hblocks := formatFat_success hB hfmt
  have hclus := (fat32SecPerClus_bounds hB).2.1
  by_cases hsize : blockSize.toNat ≤ 65535
  · rcases fatSizing_cases hB hP with ⟨htry, h16⟩ | ⟨htry, h32⟩
    · exact ⟨fun _ => ⟨hsize, .inl htry⟩, fun _ => capacity_fat16 hB hsize hP h16 hblocks⟩
    · obtain ⟨estimate, hz⟩ := sizeFat32_spec hB hP (by omega)
      rw [h32] at hblocks
      rw [capacity_fat32 hB hsize hP (by omega) (toNat_fat32SecPerClus hB) hz hblocks]
      exact ⟨fun h => ⟨hsize, .inr h⟩, fun h => h.2.resolve_left htry⟩
  · exact ⟨fun h => absurd (capacity_blockSize hB hblocks h) hsize, fun h => absurd h.1 hsize⟩

/-- Exactly when the volume a reader sees has a FAT entry for every cluster. -/
theorem fatCapacity_iff {env env' : FormatEnv} {blockSize : UInt32} {totalBlocks : UInt64}
    {written gptLog log log' : List BlockWrite} (hB : 512 ≤ blockSize)
    (hgpt : writeGpt env blockSize totalBlocks written = .ok (.success, gptLog))
    (hin : FatContained blockSize totalBlocks)
    (hfmt : formatFat env' blockSize totalBlocks log = .ok (.success, log')) :
    FatCapacity blockSize (log'.drop log.length) ↔ FatCapacitySizes blockSize totalBlocks := by
  have hB' : 512 ≤ blockSize.toNat := UInt32.le_iff_toNat_le.mp hB
  have hrange := first_lt_last_of_writeGpt hgpt
  exact fatCapacity_cond hB' hrange ((fatContained_cond hB' hrange).mp hin) hfmt

theorem formatFat_succeeds (crc : List UInt8 → UInt32) {blockSize : UInt32}
    (hB : 512 ≤ blockSize.toNat) (totalBlocks : UInt64) :
    ∃ log, formatFat (.succeeding crc) blockSize totalBlocks [] = .ok (.success, log) := by
  obtain ⟨status, ws, hrun, _, _, hs⟩ := writes_formatFat (.succeeding crc) hB totalBlocks []
  obtain rfl := hs ⟨fun _ => rfl, fun _ => rfl⟩
  exact ⟨_, hrun⟩

/-- 1 MiB, where the FAT32 tables are one sector each. -/
theorem fatCapacity_oneMebibyte :
    ∃ log, formatFat (.succeeding fun _ => 0) 512 2048 [] = .ok (.success, log)
      ∧ FatCapacity 512 (log.drop 0) := by
  have hB : 512 ≤ (512 : UInt32).toNat := Nat.le_refl _
  have hfit : ¬ fatLastUsable 512 2048 ≤ fatFirstUsable 512 := by decide
  obtain ⟨written, gptLog, hgpt⟩ := writeGpt_fits (fun _ => 0) hB hfit
  obtain ⟨log, hfmt⟩ := formatFat_succeeds (fun _ => 0) hB 2048
  have hin : FatContained 512 2048 :=
    (fatContained_cond hB (first_lt_last_of_writeGpt hgpt)).mpr
      ⟨1981, by decide, by decide, .inl (by decide)⟩
  exact ⟨log, hfmt, (fatCapacity_iff (by decide) hgpt hin hfmt).mpr
    ⟨by decide, .inr (by decide)⟩⟩

/-- 4195363 blocks of 512 bytes: 512 table sectors for 65535 clusters and
the two reserved entries. -/
theorem fatCapacity_lastCluster_fails :
    ∃ written gptLog log,
      writeGpt (.succeeding fun _ => 0) 512 4195363 written = .ok (.success, gptLog)
        ∧ FatContained 512 4195363
        ∧ formatFat (.succeeding fun _ => 0) 512 4195363 [] = .ok (.success, log)
        ∧ ¬ FatCapacity 512 log := by
  have hB : 512 ≤ (512 : UInt32).toNat := Nat.le_refl _
  have hfit : ¬ fatLastUsable 512 4195363 ≤ fatFirstUsable 512 := by decide
  obtain ⟨written, gptLog, hgpt⟩ := writeGpt_fits (fun _ => 0) hB hfit
  obtain ⟨log, hfmt⟩ := formatFat_succeeds (fun _ => 0) hB 4195363
  have hrange := first_lt_last_of_writeGpt hgpt
  have hsizes : FatSizes 512 4195363 := ⟨4195296, by decide, by decide, .inl (by decide)⟩
  refine ⟨written, gptLog, log, hgpt, (fatContained_cond hB hrange).mpr hsizes, hfmt, ?_⟩
  intro hcap
  rcases (fatCapacity_cond hB hrange hsizes hfmt).mp hcap with ⟨_, htry | hsettles⟩
  · revert htry
    decide
  · revert hsettles
    decide

end Ccr2004
