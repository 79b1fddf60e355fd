import Ccr2004.FatCapacity

/-!
# The FAT type and the count of clusters

A reader takes the width of the FAT entries from the count of clusters, and
`FormatFat` from a search over cluster sizes. `typeAgrees_boot` gives the
count in terms of the sizing, for every partition. Where the fields of the
boot sector hold the block size and the sector count, a search that accepts
nothing has more sectors than 65525 clusters of each size take
(`search_exhausted`), or fewer than 4085; `fatTypeFits_iff` is what remains.
-/

namespace Ccr2004

/-- The count of clusters is on the side of the thresholds that stands for
the width of the FAT entries. -/
structure TypeAgrees (useFat32 : Bool) (sector : List UInt8) : Prop where
  sectorSize : (Bpb.read sector).bytsPerSec ≠ 0
  fat16 : useFat32 = false → 4085 ≤ readClusters sector ∧ readClusters sector < 65525
  fat32 : useFat32 = true → 65525 ≤ readClusters sector

/-- So it is for the boot sector that these writes start with. -/
def FatTypeAgrees (blockSize : UInt32) (partSectors : UInt64) (ws : List BlockWrite) : Prop :=
  ∃ boot, ws.head? = some boot
    ∧ TypeAgrees (fatSizing blockSize partSectors).useFat32 boot.data

/-! ## What the reader gets -/

/-- The table size a FAT16 boot sector is left with. Where nothing is left of
it a reader takes the four bytes from `DrvNum16` on, which count more
sectors than any volume has. -/
def cutFatSz16 (z : FatSizing) : Nat :=
  if z.fatSz.toNat % 2 ^ 16 = 0 then 0xEF290080 else z.fatSz.toNat % 2 ^ 16

/-- The count of clusters from the fields as they are cut to their widths. -/
def cutClusters (b p : Nat) (z : FatSizing) : Nat :=
  if z.useFat32 then (p % 2 ^ 32 - (32 + 2 * z.fatSz.toNat)) / z.secPerClus.toNat
  else (p % 2 ^ 32 - (1 + 2 * cutFatSz16 z + (512 * 32 + (b % 2 ^ 16 - 1)) / (b % 2 ^ 16)))
    / z.secPerClus.toNat

/-- That count is on the right side. -/
structure CutTypeAgrees (b p : Nat) (z : FatSizing) : Prop where
  sectorSize : b % 2 ^ 16 ≠ 0
  fat16 : z.useFat32 = false → 4085 ≤ cutClusters b p z ∧ cutClusters b p z < 65525
  fat32 : z.useFat32 = true → 65525 ≤ cutClusters b p z

/-- What every sizing has, whatever the partition. -/
structure FatSizing.Bounded (z : FatSizing) : Prop where
  cluster : 1 ≤ z.secPerClus.toNat ∧ z.secPerClus.toNat ≤ 64
  reserved : z.rsvdSecCnt = if z.useFat32 then 32 else 1

theorem fatSizing_bounded {blockSize : UInt32} (hB : 512 ≤ blockSize.toNat)
    (partSectors : UInt64) : (fatSizing blockSize partSectors).Bounded := by
  unfold fatSizing
  cases hfind : (List.range 7).findSome? (tryFat16 blockSize partSectors) with
  | none =>
      obtain ⟨hlow, hhigh, _⟩ := fat32SecPerClus_bounds hB
      exact ⟨⟨hlow, hhigh⟩, rfl⟩
  | some z =>
      obtain ⟨i, hi, htry⟩ := List.exists_of_findSome?_eq_some hfind
      have hi := List.mem_range.mp hi
      obtain ⟨fatSz, clusters, heq, _, _⟩ := tryFat16_eq partSectors hB hi
      rw [heq] at htry
      split at htry
      · cases htry
        exact ⟨tryClus_bounds i hi, rfl⟩
      · cases htry

section Reader

variable {blockSize : UInt32} {sectors first : UInt64} {z : FatSizing}

theorem read_padded_bootSector (hB : 512 ≤ blockSize.toNat) (sectors first : UInt64)
    (z : FatSizing) :
    Bpb.read (padded blockSize.toNat (bootSector blockSize sectors first z))
      = fatBpb blockSize sectors first z := by
  rw [padded_of_le (by rw [length_bootSector]; exact hB), read_bootSector]

/-- The fields that do not depend on the table size. -/
theorem fatBpb_fields (blockSize : UInt32) (sectors first : UInt64) (hz : z.Bounded) :
    (fatBpb blockSize sectors first z).bytsPerSec.toNat = blockSize.toNat % 2 ^ 16
      ∧ (fatBpb blockSize sectors first z).secPerClus.toNat = z.secPerClus.toNat
      ∧ (fatBpb blockSize sectors first z).rsvdSecCnt.toNat = (if z.useFat32 then 32 else 1)
      ∧ (fatBpb blockSize sectors first z).numFats.toNat = 2 := by
  have hlt := hz.cluster.2
  have hclus : z.secPerClus.toUInt8.toNat = z.secPerClus.toNat := by
    rw [UInt32.toNat_toUInt8, Nat.mod_eq_of_lt (by omega)]
  have hrsvd : z.rsvdSecCnt.toUInt16.toNat = if z.useFat32 then 32 else 1 := by
    rw [hz.reserved]
    cases z.useFat32 with
    | false => rfl
    | true => rfl
  cases hfat : z.useFat32 with
  | false =>
      rw [hfat] at hrsvd
      simp only [fatBpb, hfat]
      exact ⟨UInt32.toNat_toUInt16 blockSize, hclus, hrsvd, rfl⟩
  | true =>
      rw [hfat] at hrsvd
      simp only [fatBpb, hfat]
      exact ⟨UInt32.toNat_toUInt16 blockSize, hclus, hrsvd, rfl⟩

/-- The four bytes of a FAT16 boot sector where `FATSz32` would be. -/
theorem readWord32_fat16 (hfat : z.useFat32 = false) (post : List UInt8) :
    readWord32 (bootSector blockSize sectors first z ++ post) 36 = 0xEF290080 := by
  obtain ⟨hjmp, hoem⟩ := fatBpb_lengths blockSize sectors first z
  have hlen := Bpb.length_bytes _ hjmp hoem
  have hnot : ¬ z.useFat32 = true := by simp [hfat]
  rw [bootSector, if_neg hnot, List.append_assoc, readWord32, slice_append_of_le (by omega), hlen]
  have hhead : fat16Extension
      = [0x80, 0, 0x29, 0xEF] ++ fat16Extension.drop 4 := rfl
  rw [hhead]
  simp only [List.append_assoc, Nat.sub_self]
  rw [slice_append_here (show ([0x80, 0, 0x29, 0xEF] : List UInt8).length = 4 from rfl)]
  decide

/-- What a reader gets, for every sizing. -/
theorem readClusters_boot (hB : 512 ≤ blockSize.toNat) (sectors first : UInt64) (hz : z.Bounded) :
    readClusters (padded blockSize.toNat (bootSector blockSize sectors first z))
      = cutClusters blockSize.toNat sectors.toNat z := by
  have hread := read_padded_bootSector hB sectors first z
  have htotal := totalSectors_fatBpb blockSize sectors first z
  obtain ⟨hbytes, hclus, hrsvd, hfats⟩ := fatBpb_fields blockSize sectors first hz
  have hlen : (bootSector blockSize sectors first z).length ≤ blockSize.toNat := by
    rw [length_bootSector]
    exact hB
  have hpad := padded_of_le hlen
  simp only [readClusters, readFatSize, hread, htotal, hclus, hrsvd, hfats, Bpb.rootDirSectors,
    hbytes, cutClusters]
  cases hfat : z.useFat32 with
  | false =>
      have hsize : (fatBpb blockSize sectors first z).fatSz16.toNat = z.fatSz.toNat % 2 ^ 16 := by
        simp only [fatBpb, hfat]
        exact UInt32.toNat_toUInt16 z.fatSz
      have hroot : (fatBpb blockSize sectors first z).rootEntCnt.toNat = 512 := by
        simp only [fatBpb, hfat]
        rfl
      have hzero : (fatBpb blockSize sectors first z).fatSz16 = 0 ↔ z.fatSz.toNat % 2 ^ 16 = 0 := by
        rw [← hsize, ← UInt16.toNat_inj]
        rfl
      have hword : (readWord32 (padded blockSize.toNat (bootSector blockSize sectors first z))
          36).toNat = 0xEF290080 := by
        rw [hpad, readWord32_fat16 hfat]
        rfl
      rw [hroot, hsize, hword, cutFatSz16]
      simp only [hzero, Bool.false_eq_true, if_false]
  | true =>
      have hzero : (fatBpb blockSize sectors first z).fatSz16 = 0 := by
        simp only [fatBpb, hfat]
        rfl
      have hroot : (fatBpb blockSize sectors first z).rootEntCnt.toNat = 0 := by
        simp only [fatBpb, hfat]
        rfl
      have hdir : (blockSize.toNat % 2 ^ 16 - 1) / (blockSize.toNat % 2 ^ 16) = 0 := by
        generalize blockSize.toNat % 2 ^ 16 = n
        cases n with
        | zero => rfl
        | succ n => exact Nat.div_eq_of_lt (by omega)
      have hword : readWord32 (padded blockSize.toNat (bootSector blockSize sectors first z)) 36
          = z.fatSz := by
        rw [hpad, readWord32_fatSz32 _ _ _ _ hfat]
      simp only [if_true, hzero, hword, hroot, Nat.zero_mul, Nat.zero_add, hdir, Nat.add_zero]

/-- The thresholds in terms of the sizing. -/
theorem typeAgrees_boot (hB : 512 ≤ blockSize.toNat) (hz : z.Bounded) :
    TypeAgrees z.useFat32 (padded blockSize.toNat (bootSector blockSize sectors first z))
      ↔ CutTypeAgrees blockSize.toNat sectors.toNat z := by
  have hcount := readClusters_boot hB sectors first hz
  have hbytes := (fatBpb_fields blockSize sectors first hz).1
  have hsize : (Bpb.read (padded blockSize.toNat (bootSector blockSize sectors first z))).bytsPerSec
      ≠ 0 ↔ blockSize.toNat % 2 ^ 16 ≠ 0 := by
    rw [read_padded_bootSector hB, ← hbytes, ne_eq, ne_eq, ← UInt16.toNat_inj]
    rfl
  constructor
  · rintro ⟨hsector, h16, h32⟩
    rw [hcount] at h16 h32
    exact ⟨hsize.mp hsector, h16, h32⟩
  · rintro ⟨hsector, h16, h32⟩
    rw [← hcount] at h16 h32
    exact ⟨hsize.mpr hsector, h16, h32⟩

end Reader

/-! ## Where the fields hold the sizes -/

/-- A FAT16 volume of clusters of one sector has 4085 of them; and the
partition is not one of the 511 that are past FAT16 with clusters of 64
sectors of 512 bytes and not yet FAT32 with the same clusters. -/
def FatTypeFits (b p : Nat) : Prop :=
  let root := (512 * 32 + (b - 1)) / b
  4085 + (1 + root + 2 * (((p - 1 - root + 2) * 2 + (b - 1)) / b)) ≤ p
    ∧ ¬ (b = 512 ∧ 4194145 ≤ p ∧ p < 4194656)

instance (b p : Nat) : Decidable (FatTypeFits b p) :=
  inferInstanceAs (Decidable (_ ∧ _))

/-- Sectors of the FAT16 table for `q` sectors in clusters of `s`. -/
def fat16Table (b q s : Nat) : Nat :=
  ((q / s + 2) * 2 + (b - 1)) % 2 ^ 32 / b

theorem ceilDiv_le {b n : Nat} (hb : 512 ≤ b) : 512 * ((n + (b - 1)) / b) ≤ n + 512 := by
  have hhigh := (ceilDiv_bounds (n := n) (show 0 < b by omega)).2
  have hprev : ((n + (b - 1)) / b - 1) * 512 ≤ ((n + (b - 1)) / b - 1) * b :=
    Nat.mul_le_mul_left _ hb
  rw [Nat.sub_one_mul, Nat.sub_one_mul] at hprev
  omega

theorem fat16Table_le {b q : Nat} (s : Nat) (hb : 512 ≤ b) :
    512 * fat16Table b q s ≤ (q / s + 2) * 2 + 512 := by
  have hle : fat16Table b q s ≤ ((q / s + 2) * 2 + (b - 1)) / b :=
    Nat.div_le_div_right (Nat.mod_le _ _)
  have hceil := ceilDiv_le (n := (q / s + 2) * 2) hb
  omega

section Search

variable {blockSize : UInt32} {sectors : UInt64}

/-- A round that accepts nothing has too few clusters or too many. -/
theorem tryFat16_none {i q : Nat} (hB : 512 ≤ blockSize.toNat) (hP : sectors.toNat < 2 ^ 32)
    (hi : i < 7) (hq : sectors.toNat = q + (1 + (fat16RootDirSectors blockSize).toNat))
    (hroom : 2 * fat16Table blockSize.toNat q (2 ^ i) ≤ q)
    (h : tryFat16 blockSize sectors i = none) :
    (q - 2 * fat16Table blockSize.toNat q (2 ^ i)) / 2 ^ i < 4085
      ∨ 65525 ≤ (q - 2 * fat16Table blockSize.toNat q (2 ^ i)) / 2 ^ i := by
  obtain ⟨fatSz, clusters, heq, htable, hcount⟩ := tryFat16_eq sectors hB hi
  have hself := Nat.div_le_self q (2 ^ i)
  have hfat : fatSz.toNat = fat16Table blockSize.toNat q (2 ^ i) := by
    rw [htable, show (sectors.toNat + 2 ^ 64 - 1 - (fat16RootDirSectors blockSize).toNat) % 2 ^ 64
      = q by omega, Nat.mod_eq_of_lt (show q / 2 ^ i < 2 ^ 32 by omega)]
    rfl
  rw [hfat, show (sectors.toNat % 2 ^ 32 + 2 ^ 32 - (1 + 2 * fat16Table blockSize.toNat q (2 ^ i)
    + (fat16RootDirSectors blockSize).toNat)) % 2 ^ 32
      = q - 2 * fat16Table blockSize.toNat q (2 ^ i) by omega] at hcount
  rw [heq] at h
  split at h
  · cases h
  · rename_i hrange
    rw [ge_iff_le, UInt32.le_iff_toNat_le, UInt32.le_iff_toNat_le, hcount] at hrange
    by_cases hlow : 4085 ≤ (q - 2 * fat16Table blockSize.toNat q (2 ^ i)) / 2 ^ i
    · exact .inr (Nat.not_le.mp fun hle => hrange ⟨hlow, hle⟩)
    · exact .inl (Nat.not_le.mp hlow)

/-- When the search accepts nothing and clusters of one sector are enough for
FAT16, there are too many clusters of each size. -/
theorem search_exhausted {q : Nat} (hB : 512 ≤ blockSize.toNat) (hP : sectors.toNat < 2 ^ 32)
    (hq : sectors.toNat = q + (1 + (fat16RootDirSectors blockSize).toNat))
    (hmin : 4085 + 2 * (((q + 2) * 2 + (blockSize.toNat - 1)) / blockSize.toNat) ≤ q)
    (hnone : ∀ i < 7, tryFat16 blockSize sectors i = none) :
    ∀ i < 7, 65525 * 2 ^ i + 2 * fat16Table blockSize.toNat q (2 ^ i) ≤ q := by
  intro i
  induction i with
  | zero =>
      intro hi
      have hle : fat16Table blockSize.toNat q (2 ^ 0)
          ≤ ((q + 2) * 2 + (blockSize.toNat - 1)) / blockSize.toNat := by
        rw [fat16Table, Nat.pow_zero, Nat.div_one]
        exact Nat.div_le_div_right (Nat.mod_le _ _)
      have hround := tryFat16_none hB hP hi hq (by omega) (hnone 0 hi)
      rw [Nat.pow_zero, Nat.div_one] at hround
      rw [Nat.pow_zero] at hle ⊢
      omega
  | succ i ih =>
      intro hi
      have hprev := ih (by omega)
      have hpow : 2 ^ (i + 1) = 2 * 2 ^ i := by
        rw [Nat.pow_succ, Nat.mul_comm]
      have hpos : 0 < 2 ^ i := Nat.two_pow_pos i
      have htable := fat16Table_le (q := q) (2 ^ (i + 1)) hB
      have hhalf : q / 2 ^ (i + 1) ≤ q / 2 := Nat.div_le_div_left (by omega) (by omega)
      rcases tryFat16_none hB hP hi hq (by omega) (hnone (i + 1) hi) with hfew | hmany
      · rw [Nat.div_lt_iff_lt_mul (by omega)] at hfew
        omega
      · rw [Nat.le_div_iff_mul_le (by omega)] at hmany
        omega

end Search

section Fits

variable {b p : Nat} {root : UInt32} {z : FatSizing}

/-- A partition with a FAT16 volume has the sectors. -/
theorem fits_of_fat16 (hb : 512 ≤ b) (hb' : b ≤ 65535)
    (hroot : root.toNat = (512 * 32 + (b - 1)) / b) (h : Fat16Sizing b p root z) :
    FatTypeFits b p := by
  obtain ⟨hlow, hhigh⟩ := h.cluster
  have hfits := h.fits
  obtain ⟨hmin, hmax⟩ := h.count
  have htable : z.fatSz.toNat = fat16Table b (p - 1 - root.toNat) z.secPerClus.toNat := h.table
  have hle := fat16Table_le (q := p - 1 - root.toNat) z.secPerClus.toNat hb
  have hself := Nat.div_le_self (p - 1 - root.toNat) z.secPerClus.toNat
  rw [← htable] at hle
  rw [h.clusters, Nat.le_div_iff_mul_le (by omega)] at hmin
  rw [h.clusters, ← Nat.lt_succ_iff, Nat.div_lt_iff_lt_mul (by omega)] at hmax
  refine ⟨?_, ?_⟩
  · rw [← hroot]
    by_cases hone : z.secPerClus.toNat = 1
    · rw [hone] at hmin hmax
      rw [fat16Table, hone, Nat.div_one, Nat.mod_eq_of_lt (by omega)] at htable
      omega
    · have hmul : 4085 * 2 ≤ 4085 * z.secPerClus.toNat := Nat.mul_le_mul_left _ (by omega)
      have hceil := ceilDiv_le (n := (p - 1 - root.toNat + 2) * 2) hb
      omega
  · rintro ⟨rfl, hband, hband'⟩
    rw [show (512 * 32 + (512 - 1)) / 512 = 32 from rfl] at hroot
    by_cases hlast : z.secPerClus.toNat = 64
    · rw [fat16Table, hlast, Nat.mod_eq_of_lt (by omega)] at htable
      rw [hlast] at hmax
      rcases Nat.lt_or_ge z.fatSz.toNat 257 with hfew | hmany
      · omega
      · omega
    · have hmul : (65524 + 1) * z.secPerClus.toNat ≤ (65524 + 1) * 63 :=
        Nat.mul_le_mul_left _ (by omega)
      omega

/-- A FAT32 table takes less than a 4096th of the sectors, but for a few: the
clusters are of 16 KiB at least. -/
theorem fat32_table_le {estimate : Nat} (hb : 512 ≤ b)
    (hs : z.secPerClus.toNat = if 32768 ≤ b then 1 else 32768 / b)
    (h : Fat32Sizing b p estimate z) :
    16384 * z.fatSz.toNat ≤ 4 * (p - 32) + 8 * z.secPerClus.toNat + 16384 := by
  obtain ⟨hlow, hhigh⟩ := h.cluster
  have hbytes : 16384 ≤ b * z.secPerClus.toNat := by
    rw [hs]
    split
    · omega
    · have hdiv := Nat.div_add_mod 32768 b
      have hmod := Nat.mod_lt 32768 (show 0 < b by omega)
      by_cases hhalf : b ≤ 16384
      · omega
      · have hone : 1 ≤ 32768 / b := (Nat.le_div_iff_mul_le (by omega)).mpr (by omega)
        have hmul := Nat.mul_le_mul_left b hone
        omega
  have hle := h.table_le
  have hquot := Nat.div_mul_le_self (p - 32) z.secPerClus.toNat
  have hest := Nat.div_mul_le_self (fat32Dividend b ((p - 32) / z.secPerClus.toNat)) b
  rw [← h.estimate, fat32Dividend] at hest
  generalize z.secPerClus.toNat = s at *
  generalize (p - 32) / s = k at *
  have hsum : estimate * b ≤ (k + 2) * 4 + (b - 1) := Nat.le_trans hest (Nat.mod_le _ _)
  have hscaled : (estimate - 1) * (b * s) ≤ ((k + 2) * 4) * s := by
    rw [← Nat.mul_assoc]
    refine Nat.mul_le_mul_right s ?_
    rw [Nat.sub_one_mul]
    omega
  have hmono : (estimate - 1) * 16384 ≤ (estimate - 1) * (b * s) := Nat.mul_le_mul_left _ hbytes
  have hexpand : ((k + 2) * 4) * s = 4 * (k * s) + 8 * s := by ring
  omega

/-- Past 65525 clusters of 64 sectors a FAT32 volume has as many, but for a
few sizes with blocks of 512 bytes. -/
theorem fat32_count {estimate q : Nat} (hb : 512 ≤ b) (hp : p < 2 ^ 32) (hq : q + 1 ≤ p)
    (hs : z.secPerClus.toNat = if 32768 ≤ b then 1 else 32768 / b)
    (hq512 : b = 512 → p = q + 33)
    (hmany : 65525 * 64 + 2 * fat16Table b q 64 ≤ q) (h : Fat32Sizing b p estimate z) :
    65525 ≤ (p - (32 + 2 * z.fatSz.toNat)) / z.secPerClus.toNat
      ↔ ¬ (b = 512 ∧ 4194145 ≤ p ∧ p < 4194656) := by
  obtain ⟨hlow, hhigh⟩ := h.cluster
  have hest := h.estimate
  have hle := h.table_le
  have htable := h.table
  have hclus := h.clusters
  have hbound := fat32_table_le hb hs h
  rw [Nat.le_div_iff_mul_le (by omega)]
  by_cases hfirst : b = 512
  · subst hfirst
    rw [if_neg (by omega), show 32768 / 512 = 64 from rfl] at hs
    rw [fat16Table, Nat.mod_eq_of_lt (by omega)] at hmany
    rw [hs] at hest hclus
    rw [fat32Dividend, Nat.mod_eq_of_lt (by omega)] at hest htable
    rw [hs]
    -- a table of 512 sectors has entries for the 65525 clusters and no more than 9 others
    rcases Nat.lt_or_ge z.fatSz.toNat 513 with hfew | hmore
    · omega
    · omega
  · have hclus63 : z.secPerClus.toNat ≤ 63 := by
      rw [hs]
      split
      · omega
      · refine Nat.lt_succ_iff.mp ((Nat.div_lt_iff_lt_mul (by omega)).mpr ?_)
        omega
    refine ⟨fun _ hband => hfirst hband.1, fun _ => ?_⟩
    omega

end Fits

/-! ## The condition -/

/-- Where the boot sector holds the block size and the count of sectors, the
partition is large enough for FAT16 and not in the band before FAT32;
elsewhere the count is that of the cut fields. -/
def FatTypeSizes (blockSize : UInt32) (partSectors : UInt64) : Prop :=
  if blockSize.toNat ≤ 65535 ∧ partSectors.toNat < 2 ^ 32 then
    FatTypeFits blockSize.toNat partSectors.toNat
  else CutTypeAgrees blockSize.toNat partSectors.toNat (fatSizing blockSize partSectors)

section Sizes

variable {blockSize : UInt32} {sectors : UInt64}

/-- Too few sectors for FAT16 are too few for FAT32. -/
theorem cutClusters_small {z : FatSizing} (hfat : z.useFat32 = true) {p : Nat}
    (hp : p < 65525) (b : Nat) : cutClusters b p z < 65525 := by
  rw [cutClusters, if_pos hfat]
  have hself := Nat.div_le_self (p % 2 ^ 32 - (32 + 2 * z.fatSz.toNat)) z.secPerClus.toNat
  omega

theorem cutTypeAgrees_fat16 {root : UInt32} {z : FatSizing} {b p : Nat} (hb : 512 ≤ b)
    (hb' : b ≤ 65535) (hp : p < 2 ^ 32) (hroot : root.toNat = (512 * 32 + (b - 1)) / b)
    (h : Fat16Sizing b p root z) : CutTypeAgrees b p z := by
  obtain ⟨hmin, hmax⟩ := h.count
  obtain ⟨hpos, hlt, _⟩ := h.table_bounds hb hb'
  have hcut : cutClusters b p z = z.totalClusters.toNat := by
    have hnot : ¬ z.useFat32 = true := by simp [h.fat16]
    rw [cutClusters, if_neg hnot, cutFatSz16, Nat.mod_eq_of_lt hlt, if_neg (by omega),
      Nat.mod_eq_of_lt hp, Nat.mod_eq_of_lt (show b < 2 ^ 16 by omega), h.clusters, hroot]
  refine ⟨by rw [Nat.mod_eq_of_lt (by omega)]; omega, fun _ => ?_, fun hfat => ?_⟩
  · rw [hcut]
    omega
  · rw [h.fat16] at hfat
    cases hfat

theorem fatTypeFits_iff (hB : 512 ≤ blockSize.toNat) (hB' : blockSize.toNat ≤ 65535)
    (hP : sectors.toNat < 2 ^ 32) :
    CutTypeAgrees blockSize.toNat sectors.toNat (fatSizing blockSize sectors)
      ↔ FatTypeFits blockSize.toNat sectors.toNat := by
  obtain ⟨hroot, hroot1, hroot32⟩ := gptEntriesLbas_of_le hB (by omega)
  rw [← fat16RootDirSectors_eq] at hroot hroot1 hroot32
  rcases fatSizing_cases hB hP with ⟨_, h16⟩ | ⟨hnone, h32⟩
  · exact ⟨fun _ => fits_of_fat16 hB hB' hroot h16,
      fun _ => cutTypeAgrees_fat16 hB hB' hP hroot h16⟩
  · have hnone : ∀ i < 7, tryFat16 blockSize sectors i = none := by
      intro i hi
      by_contra hsome
      exact hnone ⟨i, hi, hsome⟩
    have hfat : (sizeFat32 blockSize sectors).useFat32 = true := rfl
    rw [h32, FatTypeFits]
    simp only [← hroot]
    by_cases hmin : 4085 + (1 + (fat16RootDirSectors blockSize).toNat
        + 2 * (((sectors.toNat - 1 - (fat16RootDirSectors blockSize).toNat + 2) * 2
          + (blockSize.toNat - 1)) / blockSize.toNat)) ≤ sectors.toNat
    · obtain ⟨q, hq⟩ : ∃ q, sectors.toNat = q + (1 + (fat16RootDirSectors blockSize).toNat) :=
        ⟨sectors.toNat - (1 + (fat16RootDirSectors blockSize).toNat), by omega⟩
      rw [show sectors.toNat - 1 - (fat16RootDirSectors blockSize).toNat = q by omega] at hmin ⊢
      have hmany := search_exhausted hB hP hq (by omega) hnone 6 (by omega)
      have hclus := (fat32SecPerClus_bounds hB).2.1
      obtain ⟨estimate, hz⟩ := sizeFat32_spec hB hP (by omega)
      have hcount := fat32_count hB hP (by omega) (toNat_fat32SecPerClus hB)
        (fun h512 => by rw [h512] at hroot; omega) hmany hz
      have hcut : cutClusters blockSize.toNat sectors.toNat (sizeFat32 blockSize sectors)
          = (sectors.toNat - (32 + 2 * (sizeFat32 blockSize sectors).fatSz.toNat))
            / (sizeFat32 blockSize sectors).secPerClus.toNat := by
        rw [cutClusters, if_pos hfat, Nat.mod_eq_of_lt hP]
      constructor
      · intro h
        have hright := h.fat32 hfat
        rw [hcut] at hright
        exact ⟨by omega, hcount.mp hright⟩
      · rintro ⟨-, hband⟩
        refine ⟨by rw [Nat.mod_eq_of_lt (by omega)]; omega, fun h => (by cases h), fun _ => ?_⟩
        rw [hcut]
        exact hcount.mpr hband
    · have hceil := ceilDiv_le
        (n := (sectors.toNat - 1 - (fat16RootDirSectors blockSize).toNat + 2) * 2) hB
      have hsmall := cutClusters_small hfat (show sectors.toNat < 65525 by omega) blockSize.toNat
      refine ⟨fun h => ?_, fun h => absurd h.1 hmin⟩
      have hright := h.fat32 hfat
      omega

theorem fatTypeSizes_iff (hB : 512 ≤ blockSize.toNat) :
    CutTypeAgrees blockSize.toNat sectors.toNat (fatSizing blockSize sectors)
      ↔ FatTypeSizes blockSize sectors := by
  unfold FatTypeSizes
  split
  · rename_i hfields
    exact fatTypeFits_iff hB hfields.1 hfields.2
  · exact Iff.rfl

theorem fatTypeSizes_of_fields (hB' : blockSize.toNat ≤ 65535) (hP : sectors.toNat < 2 ^ 32) :
    FatTypeSizes blockSize sectors ↔ FatTypeFits blockSize.toNat sectors.toNat := by
  rw [FatTypeSizes, if_pos ⟨hB', hP⟩]

end Sizes

theorem fatTypeAgrees_cond {env : FormatEnv} {blockSize : UInt32} {totalBlocks : UInt64}
    {log log' : List BlockWrite} (hB : 512 ≤ blockSize.toNat)
    (hfmt : formatFat env blockSize totalBlocks log = .ok (.success, log')) :
    FatTypeAgrees blockSize (partSectors blockSize totalBlocks) (log'.drop log.length)
      ↔ FatTypeSizes blockSize (partSectors blockSize totalBlocks) := by
  obtain ⟨boot, hboot, _, hdata⟩ := volume_boot (formatFat_success hB hfmt)
  rw [← fatTypeSizes_iff hB, ← typeAgrees_boot hB (fatSizing_bounded hB _), ← hdata]
  constructor
  · rintro ⟨boot', hboot', hagrees⟩
    rw [hboot] at hboot'
    obtain rfl := Option.some.inj hboot'
    exact hagrees
  · exact fun hagrees => ⟨boot, hboot, hagrees⟩

end Ccr2004
