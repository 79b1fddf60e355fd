import Ccr2004.GptLayout

/-!
# The sizes of the FAT volume

`fatSizing` on a partition of fewer than 2^32 sectors. A cluster size that
the FAT16 search accepts never comes from a wrapped subtraction
(`tryFat16_spec`), since a wrapped count of data sectors gives more clusters
than a FAT16 may have. For FAT32 the second estimate of the table size is
never above the first (`fat32Dividend_mono`), which carries
`sizeFat32_spec`.
-/

namespace Ccr2004

theorem gptEntriesLbas_le {blockSize : UInt32} (hB : 512 ≤ blockSize.toNat) :
    (gptEntriesLbas blockSize).toNat ≤ 32 := by
  by_cases h : blockSize.toNat ≤ 2 ^ 32 - 16384
  · exact (gptEntriesLbas_of_le hB h).2.2
  · rw [gptEntriesLbas_of_gt (by omega), show (0 : UInt32).toNat = 0 from rfl]
    omega

/-- The root directory takes as many sectors as the GPT entries. -/
theorem fat16RootDirSectors_eq (blockSize : UInt32) :
    fat16RootDirSectors blockSize = gptEntriesLbas blockSize := rfl

/-! ## The partition -/

/-- A device that `WriteGpt` accepts has its range in order. -/
theorem first_lt_last_of_writeGpt {env : FormatEnv} {blockSize : UInt32} {totalBlocks : UInt64}
    {written log : List BlockWrite}
    (h : writeGpt env blockSize totalBlocks written = .ok (.success, log)) :
    (fatFirstUsable blockSize).toNat < (fatLastUsable blockSize totalBlocks).toNat := by
  by_contra hle
  rw [writeGpt_volumeFull env (UInt64.le_iff_toNat_le.mpr (Nat.le_of_not_lt hle))] at h
  cases h

theorem toNat_partSectors {blockSize : UInt32} {totalBlocks : UInt64}
    (hfirst : 0 < (fatFirstUsable blockSize).toNat)
    (h : (fatFirstUsable blockSize).toNat < (fatLastUsable blockSize totalBlocks).toNat) :
    (partSectors blockSize totalBlocks).toNat + (fatFirstUsable blockSize).toNat
      = (fatLastUsable blockSize totalBlocks).toNat + 1 := by
  have hlt := (fatLastUsable blockSize totalBlocks).toNat_lt
  rw [partSectors, UInt64.toNat_add, UInt64.toNat_sub, show (1 : UInt64).toNat = 1 from rfl]
  omega

/-! ## FAT16 -/

/-- The dividend of a table size, as the code rounds it up. -/
theorem toNat_fatSectors (blockSize entrySize count : UInt32) (hB : 0 < blockSize.toNat) :
    (fatSectors blockSize entrySize count).toNat
      = ((count.toNat + 2) * entrySize.toNat + (blockSize.toNat - 1)) % 2 ^ 32
        / blockSize.toNat := by
  rw [fatSectors, UInt32.toNat_div, UInt32.toNat_sub, UInt32.toNat_add, UInt32.toNat_mul,
    UInt32.toNat_add, show (1 : UInt32).toNat = 1 from rfl, show (2 : UInt32).toNat = 2 from rfl]
  have hmul : (count.toNat + 2) % 2 ^ 32 * entrySize.toNat % 2 ^ 32
      = (count.toNat + 2) * entrySize.toNat % 2 ^ 32 := Nat.mod_mul_mod ..
  rw [hmul]
  generalize (count.toNat + 2) * entrySize.toNat = n
  congr 1
  omega

theorem fatSectors_le {blockSize : UInt32} (hB : 512 ≤ blockSize.toNat)
    (entrySize count : UInt32) :
    (fatSectors blockSize entrySize count).toNat ≤ 2 ^ 23 := by
  rw [toNat_fatSectors _ _ _ (by omega)]
  refine Nat.div_le_of_le_mul ?_
  have hmod := Nat.mod_lt ((count.toNat + 2) * entrySize.toNat + (blockSize.toNat - 1))
    (show 0 < 2 ^ 32 by omega)
  omega

theorem tryClus_bounds : ∀ i < 7,
    1 ≤ ((1 : UInt32) <<< UInt32.ofNat i).toNat ∧ ((1 : UInt32) <<< UInt32.ofNat i).toNat ≤ 64 := by
  decide

/-- The data sectors of a FAT16 try, which may have wrapped. -/
theorem toNat_dataSectors {p fatSz root : UInt32} (hfat : fatSz.toNat ≤ 2 ^ 23)
    (hroot : root.toNat ≤ 32) :
    (p - 1 - 2 * fatSz - root).toNat
      = (p.toNat + 2 ^ 32 - (1 + 2 * fatSz.toNat + root.toNat)) % 2 ^ 32 := by
  have hp := p.toNat_lt
  have hmul : (2 * fatSz).toNat = 2 * fatSz.toNat := by
    rw [UInt32.toNat_mul, show (2 : UInt32).toNat = 2 from rfl, Nat.mod_eq_of_lt (by omega)]
  rw [UInt32.toNat_sub, UInt32.toNat_sub, UInt32.toNat_sub, hmul,
    show (1 : UInt32).toNat = 1 from rfl]
  omega

/-- A FAT16 sizing that the search accepts: nothing in it has wrapped, and
the table was sized for at least its clusters. -/
structure Fat16Sizing (blockSize partSectors : Nat) (root : UInt32) (z : FatSizing) : Prop where
  fat16 : z.useFat32 = false
  reserved : z.rsvdSecCnt = 1
  rootDir : z.rootDirSectors = root
  cluster : 1 ≤ z.secPerClus.toNat ∧ z.secPerClus.toNat ≤ 64
  count : 4085 ≤ z.totalClusters.toNat ∧ z.totalClusters.toNat ≤ 65524
  fits : 1 + 2 * z.fatSz.toNat + root.toNat ≤ partSectors
  clusters : z.totalClusters.toNat
    = (partSectors - (1 + 2 * z.fatSz.toNat + root.toNat)) / z.secPerClus.toNat
  table : z.fatSz.toNat = (((partSectors - 1 - root.toNat) / z.secPerClus.toNat + 2) * 2
    + (blockSize - 1)) % 2 ^ 32 / blockSize

theorem toNat_tryClus : ∀ i < 7, ((1 : UInt32) <<< UInt32.ofNat i).toNat = 2 ^ i := by
  decide

/-- One round of the search, over the naturals. -/
theorem tryFat16_eq {blockSize : UInt32} (partSectors : UInt64) {i : Nat}
    (hB : 512 ≤ blockSize.toNat) (hi : i < 7) :
    ∃ fatSz clusters : UInt32,
      tryFat16 blockSize partSectors i = (if clusters ≥ 4085 ∧ clusters ≤ 65524 then
          some ⟨false, 1 <<< UInt32.ofNat i, fatSz, 1, fat16RootDirSectors blockSize, clusters⟩
        else none)
      ∧ fatSz.toNat = (((partSectors.toNat + 2 ^ 64 - 1 - (fat16RootDirSectors blockSize).toNat)
          % 2 ^ 64 / 2 ^ i % 2 ^ 32 + 2) * 2 + (blockSize.toNat - 1)) % 2 ^ 32 / blockSize.toNat
      ∧ clusters.toNat = (partSectors.toNat % 2 ^ 32 + 2 ^ 32
          - (1 + 2 * fatSz.toNat + (fat16RootDirSectors blockSize).toNat)) % 2 ^ 32 / 2 ^ i := by
  have hclus := toNat_tryClus i hi
  have hroot : (fat16RootDirSectors blockSize).toNat ≤ 32 := gptEntriesLbas_le hB
  have hp : partSectors.toUInt32.toNat = partSectors.toNat % 2 ^ 32 :=
    UInt64.toNat_toUInt32 partSectors
  let first : UInt32 := ((partSectors - UInt32.toUInt64 1
    - (fat16RootDirSectors blockSize).toUInt64)
      / ((1 : UInt32) <<< UInt32.ofNat i).toUInt64).toUInt32
  have hfirst : first.toNat = (partSectors.toNat + 2 ^ 64 - 1
      - (fat16RootDirSectors blockSize).toNat) % 2 ^ 64 / 2 ^ i % 2 ^ 32 := by
    have hlt := partSectors.toNat_lt
    rw [UInt64.toNat_toUInt32, UInt64.toNat_div, UInt64.toNat_sub, UInt64.toNat_sub,
      UInt32.toNat_toUInt64, UInt32.toNat_toUInt64, UInt32.toNat_toUInt64, hclus,
      show (1 : UInt32).toNat = 1 from rfl]
    congr 2
    omega
  have hfat := fatSectors_le hB 2 first
  have hdata := toNat_dataSectors (p := partSectors.toUInt32) hfat hroot
  refine ⟨fatSectors blockSize 2 first, _, rfl, ?_, ?_⟩
  · rw [toNat_fatSectors _ _ _ (by omega), hfirst]
    rfl
  · rw [UInt32.toNat_div, hclus, hdata, hp]

theorem tryFat16_spec {blockSize : UInt32} {partSectors : UInt64} {i : Nat} {z : FatSizing}
    (hB : 512 ≤ blockSize.toNat) (hP : partSectors.toNat < 2 ^ 32) (hi : i < 7)
    (h : tryFat16 blockSize partSectors i = some z) :
    Fat16Sizing blockSize.toNat partSectors.toNat (fat16RootDirSectors blockSize) z := by
  obtain ⟨hclus, hclus'⟩ := tryClus_bounds i hi
  have hroot : (fat16RootDirSectors blockSize).toNat ≤ 32 := gptEntriesLbas_le hB
  obtain ⟨fatSz, clusters, heq, htable, hcount⟩ := tryFat16_eq partSectors hB hi
  have hfat : fatSz.toNat ≤ 2 ^ 23 := by
    rw [htable]
    refine Nat.div_le_of_le_mul ?_
    omega
  rw [heq] at h
  rw [← toNat_tryClus i hi] at htable hcount
  generalize (1 : UInt32) <<< UInt32.ofNat i = clus at *
  rw [Nat.mod_eq_of_lt hP] at hcount
  split at h
  · rename_i hrange
    cases h
    obtain ⟨hlow, hhigh⟩ := hrange
    rw [ge_iff_le, UInt32.le_iff_toNat_le] at hlow
    have hhigh := UInt32.le_iff_toNat_le.mp hhigh
    generalize hdata : (partSectors.toNat + 2 ^ 32
      - (1 + 2 * fatSz.toNat + (fat16RootDirSectors blockSize).toNat)) % 2 ^ 32 = data at hcount
    have hsmall : data < 65525 * clus.toNat := by
      rw [← Nat.div_lt_iff_lt_mul (by omega), ← hcount]
      exact Nat.lt_succ_of_le hhigh
    have hsmall' : data < 65525 * 64 :=
      Nat.lt_of_lt_of_le hsmall (Nat.mul_le_mul_left _ hclus')
    -- a wrapped difference is above every count the range allows
    have hfits : 1 + 2 * fatSz.toNat + (fat16RootDirSectors blockSize).toNat
        ≤ partSectors.toNat := by omega
    have hexact : data
        = partSectors.toNat - (1 + 2 * fatSz.toNat + (fat16RootDirSectors blockSize).toNat) := by
      omega
    refine ⟨rfl, rfl, rfl, ⟨hclus, hclus'⟩, ⟨hlow, hhigh⟩, hfits, ?_, ?_⟩
    · rw [hcount, hexact]
    · have hself := Nat.div_le_self
        (partSectors.toNat - 1 - (fat16RootDirSectors blockSize).toNat) clus.toNat
      rw [htable, show (partSectors.toNat + 2 ^ 64 - 1 - (fat16RootDirSectors blockSize).toNat)
        % 2 ^ 64 = partSectors.toNat - 1 - (fat16RootDirSectors blockSize).toNat by omega,
        Nat.mod_eq_of_lt (show _ / clus.toNat < 2 ^ 32 by omega)]
  · cases h

/-- An accepted FAT16 sizing lies inside the partition. -/
theorem Fat16Sizing.inside {blockSize partSectors : Nat} {root : UInt32} {z : FatSizing}
    (h : Fat16Sizing blockSize partSectors root z) :
    z.rsvdSecCnt.toNat + 2 * z.fatSz.toNat + z.rootDirSectors.toNat
      + z.totalClusters.toNat * z.secPerClus.toNat ≤ partSectors := by
  have hmul := Nat.div_mul_le_self
    (partSectors - (1 + 2 * z.fatSz.toNat + root.toNat)) z.secPerClus.toNat
  have hfits := h.fits
  rw [← h.clusters] at hmul
  rw [h.reserved, h.rootDir, show (1 : UInt32).toNat = 1 from rfl]
  omega

/-! ## FAT32 -/

theorem toNat_fat32SecPerClus {blockSize : UInt32} (hB : 512 ≤ blockSize.toNat) :
    (fat32SecPerClus blockSize).toNat
      = if 32768 ≤ blockSize.toNat then 1 else 32768 / blockSize.toNat := by
  have hdiv : 32768 / blockSize.toNat ≤ 64 := by
    refine Nat.div_le_of_le_mul ?_
    omega
  simp only [fat32SecPerClus, ge_iff_le, gt_iff_lt, UInt32.le_iff_toNat_le,
    UInt32.lt_iff_toNat_lt]
  rw [show (32768 : UInt32).toNat = 32768 from rfl, show (128 : UInt32).toNat = 128 from rfl]
  by_cases hbig : 32768 ≤ blockSize.toNat
  · rw [if_pos hbig, if_pos hbig]
    rfl
  · have hquot : (32768 / blockSize : UInt32).toNat = 32768 / blockSize.toNat := by
      rw [UInt32.toNat_div]
      rfl
    rw [if_neg hbig, if_neg hbig, hquot, if_neg (by omega), hquot]

theorem fat32SecPerClus_bounds {blockSize : UInt32} (hB : 512 ≤ blockSize.toNat) :
    1 ≤ (fat32SecPerClus blockSize).toNat ∧ (fat32SecPerClus blockSize).toNat ≤ 64
      ∧ (blockSize.toNat ≥ 32768 → (fat32SecPerClus blockSize).toNat = 1) := by
  rw [toNat_fat32SecPerClus hB]
  by_cases hbig : 32768 ≤ blockSize.toNat
  · rw [if_pos hbig]
    omega
  · rw [if_neg hbig]
    refine ⟨?_, ?_, fun h => absurd h hbig⟩
    · rw [Nat.le_div_iff_mul_le (by omega)]
      omega
    · refine Nat.div_le_of_le_mul ?_
      omega

/-- The dividend of the size of a FAT32 table, in 32 bits. -/
def fat32Dividend (blockSize count : Nat) : Nat :=
  ((count + 2) * 4 + (blockSize - 1)) % 2 ^ 32

theorem toNat_fatSectors32 {blockSize : UInt32} (hB : 512 ≤ blockSize.toNat) (count : UInt32) :
    (fatSectors blockSize 4 count).toNat
      = fat32Dividend blockSize.toNat count.toNat / blockSize.toNat :=
  toNat_fatSectors blockSize 4 count (by omega)

/-- Fewer clusters by at most twice the table do not need a larger table,
wrapped or not. -/
theorem fat32Dividend_mono {b c c' : Nat} (hb : 512 ≤ b) (hle : c' ≤ c)
    (hdiff : c - c' ≤ 2 * (fat32Dividend b c / b)) :
    fat32Dividend b c' / b ≤ fat32Dividend b c / b := by
  refine Nat.div_le_div_right ?_
  have hmul : 512 * (fat32Dividend b c / b) ≤ fat32Dividend b c :=
    Nat.le_trans (Nat.mul_le_mul_right _ hb) (Nat.mul_div_le _ _)
  generalize fat32Dividend b c / b = y at hdiff hmul
  simp only [fat32Dividend] at hmul ⊢
  omega

theorem div_sub_div_le {q d s : Nat} (hs : 1 ≤ s) (hd : d ≤ q) : q / s - (q - d) / s ≤ d := by
  have hstep : q / s ≤ (q - d + d * s) / s := by
    refine Nat.div_le_div_right ?_
    have hmul : d * 1 ≤ d * s := Nat.mul_le_mul_left d hs
    omega
  rw [Nat.add_mul_div_right _ _ (by omega)] at hstep
  omega

/-- The two estimates of `sizeFat32`, over the naturals. -/
theorem sizeFat32_eq {blockSize : UInt32} (partSectors : UInt64) (hB : 512 ≤ blockSize.toNat)
    (hP : partSectors.toNat < 2 ^ 32) (hrsvd : 32 ≤ partSectors.toNat) :
    ∃ fatSz clusters : UInt32,
      sizeFat32 blockSize partSectors
        = ⟨true, fat32SecPerClus blockSize, fatSectors blockSize 4 clusters, 32, 0, clusters⟩
      ∧ fatSz.toNat = fat32Dividend blockSize.toNat
          ((partSectors.toNat - 32) / (fat32SecPerClus blockSize).toNat) / blockSize.toNat
      ∧ clusters.toNat = (partSectors.toNat + 2 ^ 64 - 32 - 2 * fatSz.toNat) % 2 ^ 64
          / (fat32SecPerClus blockSize).toNat % 2 ^ 32 := by
  let first : UInt32 := ((partSectors - 32) / (fat32SecPerClus blockSize).toUInt64).toUInt32
  have hfirst : first.toNat = (partSectors.toNat - 32) / (fat32SecPerClus blockSize).toNat := by
    have hdiv := Nat.div_le_self (partSectors.toNat - 32) (fat32SecPerClus blockSize).toNat
    have hle : (32 : UInt64) ≤ partSectors := UInt64.le_iff_toNat_le.mpr hrsvd
    rw [UInt64.toNat_toUInt32, UInt64.toNat_div, UInt64.toNat_sub_of_le _ _ hle,
      UInt32.toNat_toUInt64,
      show (32 : UInt64).toNat = 32 from rfl, Nat.mod_eq_of_lt (by omega)]
  have hfat := fatSectors_le hB 4 first
  refine ⟨fatSectors blockSize 4 first, _, rfl, ?_, ?_⟩
  · rw [toNat_fatSectors32 hB, hfirst]
  · show ((partSectors - 32 - (2 * fatSectors blockSize 4 first).toUInt64)
      / (fat32SecPerClus blockSize).toUInt64).toUInt32.toNat = _
    rw [UInt64.toNat_toUInt32, UInt64.toNat_div, UInt64.toNat_sub, UInt64.toNat_sub,
      UInt32.toNat_toUInt64, UInt32.toNat_toUInt64, UInt32.toNat_mul,
      show (32 : UInt64).toNat = 32 from rfl, show (2 : UInt32).toNat = 2 from rfl]
    congr 2
    omega

/-! ## Inside the partition -/

/-- The regions of the volume end inside a partition of `sectors` sectors;
the root directory of a FAT32 volume is its first cluster. -/
structure FatSizing.Inside (z : FatSizing) (sectors : Nat) : Prop where
  clusters : z.rsvdSecCnt.toNat + 2 * z.fatSz.toNat + z.rootDirSectors.toNat
    + z.totalClusters.toNat * z.secPerClus.toNat ≤ sectors
  root : z.useFat32 = true →
    z.rsvdSecCnt.toNat + 2 * z.fatSz.toNat + z.secPerClus.toNat ≤ sectors

/-- What every sizing has: at least a sector to a cluster, and for FAT32 the
reserved sectors that hold the boot sectors and FSInfo. -/
structure FatSizing.Shape (z : FatSizing) : Prop where
  cluster : 1 ≤ z.secPerClus.toNat
  fat16 : z.useFat32 = false → 1 ≤ z.totalClusters.toNat
  fat32 : z.useFat32 = true → z.rsvdSecCnt.toNat = 32 ∧ z.rootDirSectors.toNat = 0

/-- With a root cluster and two more sectors behind the reserved ones, the
first table estimate leaves a cluster. -/
theorem fat32Dividend_room {b s q : Nat} (hb : 512 ≤ b) (hs : 1 ≤ s) (hq : s + 2 ≤ q) :
    2 * (fat32Dividend b (q / s) / b) + s ≤ q := by
  have hdivide : fat32Dividend b (q / s) ≤ (q / s + 2) * 4 + (b - 1) := Nat.mod_le _ _
  have hquot : q / s * s ≤ q := Nat.div_mul_le_self q s
  generalize q / s = k at hdivide hquot ⊢
  by_cases hone : (k + 2) * 4 ≤ b
  · have hlt : fat32Dividend b k / b < 2 := by
      rw [Nat.div_lt_iff_lt_mul (by omega)]
      omega
    omega
  · have hk : k - 1 ≤ (k - 1) * s := Nat.le_mul_of_pos_right _ (by omega)
    have hsplit : (k - 1) * s + s = k * s := by
      rw [← Nat.succ_mul]
      congr 1
      omega
    have hsize : fat32Dividend b k / b ≤ (k + 2) * 4 / 512 + 1 := by
      rw [← Nat.lt_succ_iff, Nat.div_lt_iff_lt_mul (by omega)]
      have hmul : ((k + 2) * 4 / 512 + 1) * 512 ≤ ((k + 2) * 4 / 512 + 1) * b :=
        Nat.mul_le_mul_left _ hb
      rw [Nat.succ_mul]
      omega
    omega

/-- The FAT32 sizing of a partition with room for it; `first` is the first
estimate of the table size. -/
structure Fat32Sizing (blockSize partSectors first : Nat) (z : FatSizing) : Prop where
  fat32 : z.useFat32 = true
  reserved : z.rsvdSecCnt = 32
  rootDir : z.rootDirSectors = 0
  cluster : 1 ≤ z.secPerClus.toNat ∧ z.secPerClus.toNat ≤ 64
  estimate : first
    = fat32Dividend blockSize ((partSectors - 32) / z.secPerClus.toNat) / blockSize
  room : 2 * first + z.secPerClus.toNat ≤ partSectors - 32
  clusters : z.totalClusters.toNat = (partSectors - 32 - 2 * first) / z.secPerClus.toNat
  table : z.fatSz.toNat = fat32Dividend blockSize z.totalClusters.toNat / blockSize
  table_le : z.fatSz.toNat ≤ first

theorem sizeFat32_spec {blockSize : UInt32} {partSectors : UInt64}
    (hB : 512 ≤ blockSize.toNat) (hP : partSectors.toNat < 2 ^ 32)
    (h : 34 + (fat32SecPerClus blockSize).toNat ≤ partSectors.toNat) :
    ∃ first, Fat32Sizing blockSize.toNat partSectors.toNat first
      (sizeFat32 blockSize partSectors) := by
  obtain ⟨hs, hs', _⟩ := fat32SecPerClus_bounds hB
  obtain ⟨fatSz, clusters, heq, hfat, hclus⟩ := sizeFat32_eq partSectors hB hP (by omega)
  have hroom := fat32Dividend_room hB hs (show _ ≤ partSectors.toNat - 32 by omega)
  rw [← hfat] at hroom
  have hclus' : clusters.toNat = (partSectors.toNat - 32 - 2 * fatSz.toNat)
      / (fat32SecPerClus blockSize).toNat := by
    have hle := Nat.div_le_self (partSectors.toNat - 32 - 2 * fatSz.toNat)
      (fat32SecPerClus blockSize).toNat
    rw [hclus, show (partSectors.toNat + 2 ^ 64 - 32 - 2 * fatSz.toNat) % 2 ^ 64
      = partSectors.toNat - 32 - 2 * fatSz.toNat by omega, Nat.mod_eq_of_lt (by omega)]
  -- the table written is no larger than the one the clusters were counted with
  have hsecond : (fatSectors blockSize 4 clusters).toNat ≤ fatSz.toNat := by
    rw [toNat_fatSectors32 hB, hfat]
    refine fat32Dividend_mono hB ?_ ?_
    · rw [hclus']
      exact Nat.div_le_div_right (by omega)
    · rw [hclus', ← hfat]
      exact div_sub_div_le hs (by omega)
  rw [heq]
  exact ⟨fatSz.toNat, rfl, rfl, rfl, ⟨hs, hs'⟩, hfat, hroom, hclus',
    toNat_fatSectors32 hB clusters, hsecond⟩

theorem Fat32Sizing.inside {blockSize partSectors first : Nat} {z : FatSizing}
    (h : Fat32Sizing blockSize partSectors first z) : z.Inside partSectors := by
  have hclus := h.cluster.1
  have hroom := h.room
  have hle := h.table_le
  have hmul := Nat.div_mul_le_self (partSectors - 32 - 2 * first) z.secPerClus.toNat
  rw [← h.clusters] at hmul
  constructor
  · rw [h.reserved, h.rootDir, show (32 : UInt32).toNat = 32 from rfl,
      show (0 : UInt32).toNat = 0 from rfl]
    omega
  · intro _
    rw [h.reserved, show (32 : UInt32).toNat = 32 from rfl]
    omega

/-- With at most two clusters and no wrap the first pass gives one table
sector. -/
theorem fat32Dividend_small {b n s : Nat} (hs : 0 < s) (hn : n < 34 + s) (hb : 512 ≤ b)
    (hwrap : b + 4 * (n - 32) + 7 < 2 ^ 32) : fat32Dividend b ((n - 32) / s) / b = 1 := by
  have hquot : (n - 32) / s ≤ 2 := by
    refine Nat.div_le_of_le_mul ?_
    omega
  have hself := Nat.div_le_self (n - 32) s
  generalize (n - 32) / s = k at *
  apply Nat.div_eq_of_lt_le
  · simp only [fat32Dividend]
    omega
  · simp only [fat32Dividend]
    omega

/-- A partition that ends with the root cluster or a sector later has no
room for tables; they are empty only when the dividend wraps. -/
theorem sizeFat32_inside_small {blockSize : UInt32} {partSectors : UInt64}
    (hB : 512 ≤ blockSize.toNat)
    (h : partSectors.toNat < 34 + (fat32SecPerClus blockSize).toNat) :
    (sizeFat32 blockSize partSectors).Inside partSectors.toNat ↔
      33 ≤ partSectors.toNat ∧ 2 ^ 32 ≤ blockSize.toNat + 4 * (partSectors.toNat - 32) + 7 := by
  obtain ⟨hs, hs', hone⟩ := fat32SecPerClus_bounds hB
  have hlt := blockSize.toNat_lt
  constructor
  · intro hin
    have hroot : 32 + 2 * (sizeFat32 blockSize partSectors).fatSz.toNat
        + (fat32SecPerClus blockSize).toNat ≤ partSectors.toNat := hin.root rfl
    obtain ⟨fatSz, clusters, heq, hfat, hclus⟩ :=
      sizeFat32_eq partSectors hB (by omega) (by omega)
    rw [heq] at hroot
    replace hroot : 32 + 2 * (fatSectors blockSize 4 clusters).toNat
        + (fat32SecPerClus blockSize).toNat ≤ partSectors.toNat := hroot
    refine ⟨by omega, ?_⟩
    by_contra hwrap
    have hempty : fat32Dividend blockSize.toNat clusters.toNat < blockSize.toNat := by
      rw [toNat_fatSectors32 hB] at hroot
      rw [← Nat.div_eq_zero_iff_lt (by omega)]
      omega
    have hfirst : fatSz.toNat = 1 :=
      hfat.trans (fat32Dividend_small (by omega) h hB (by omega))
    rw [hfirst] at hclus
    by_cases hone' : partSectors.toNat = 33
    · -- two table sectors are more than the one that is left, and the count wraps
      rw [hone', show (fat32SecPerClus blockSize).toNat = 1 by omega, Nat.div_one] at hclus
      simp only [fat32Dividend] at hempty
      omega
    · have hself := Nat.div_le_self (partSectors.toNat - 34) (fat32SecPerClus blockSize).toNat
      rw [show (partSectors.toNat + 2 ^ 64 - 32 - 2 * 1) % 2 ^ 64
        = partSectors.toNat - 34 by omega, Nat.mod_eq_of_lt (by omega)] at hclus
      simp only [fat32Dividend] at hempty
      omega
  · rintro ⟨hroom, hwrap⟩
    obtain ⟨fatSz, clusters, heq, hfat, hclus⟩ :=
      sizeFat32_eq partSectors hB (by omega) (by omega)
    have hone : (fat32SecPerClus blockSize).toNat = 1 := hone (by omega)
    rw [hone, Nat.div_one] at hfat hclus
    have hempty : fat32Dividend blockSize.toNat (partSectors.toNat - 32) / blockSize.toNat = 0 := by
      rw [Nat.div_eq_zero_iff_lt (by omega), fat32Dividend]
      omega
    rw [hfat, hempty] at hclus
    have hcount : clusters.toNat = partSectors.toNat - 32 := by omega
    have hsecond : (fatSectors blockSize 4 clusters).toNat = 0 := by
      rw [toNat_fatSectors32 hB, hcount, hempty]
    rw [heq]
    constructor
    · show 32 + 2 * (fatSectors blockSize 4 clusters).toNat + 0
        + clusters.toNat * (fat32SecPerClus blockSize).toNat ≤ partSectors.toNat
      rw [hone, hsecond]
      omega
    · intro _
      show 32 + 2 * (fatSectors blockSize 4 clusters).toNat
        + (fat32SecPerClus blockSize).toNat ≤ partSectors.toNat
      omega

/-- A FAT16 volume, or the FAT32 sizing when the search accepts nothing. -/
theorem fatSizing_cases {blockSize : UInt32} {partSectors : UInt64}
    (hB : 512 ≤ blockSize.toNat) (hP : partSectors.toNat < 2 ^ 32) :
    ((∃ i < 7, tryFat16 blockSize partSectors i ≠ none)
        ∧ Fat16Sizing blockSize.toNat partSectors.toNat (fat16RootDirSectors blockSize)
          (fatSizing blockSize partSectors))
      ∨ ((¬ ∃ i < 7, tryFat16 blockSize partSectors i ≠ none)
        ∧ fatSizing blockSize partSectors = sizeFat32 blockSize partSectors) := by
  unfold fatSizing
  cases hfind : (List.range 7).findSome? (tryFat16 blockSize partSectors) with
  | none =>
      refine .inr ⟨?_, rfl⟩
      rintro ⟨i, hi, hne⟩
      exact hne (List.findSome?_eq_none_iff.mp hfind i (List.mem_range.mpr hi))
  | some z =>
      obtain ⟨i, hi, htry⟩ := List.exists_of_findSome?_eq_some hfind
      have hi := List.mem_range.mp hi
      exact .inl ⟨⟨i, hi, by rw [htry]; exact Option.some_ne_none z⟩, tryFat16_spec hB hP hi htry⟩

theorem fatSizing_shape {blockSize : UInt32} {partSectors : UInt64}
    (hB : 512 ≤ blockSize.toNat) (hP : partSectors.toNat < 2 ^ 32) :
    (fatSizing blockSize partSectors).Shape := by
  rcases fatSizing_cases hB hP with ⟨_, h16⟩ | ⟨_, h32⟩
  · have hcount := h16.count
    exact ⟨h16.cluster.1, fun _ => by omega, fun h => by rw [h16.fat16] at h; cases h⟩
  · rw [h32]
    exact ⟨(fat32SecPerClus_bounds hB).1, fun h => (by cases h), fun _ => ⟨rfl, rfl⟩⟩

/-- Exactly when the volume lies inside a partition that 32 bits count. -/
theorem fatSizing_inside_iff {blockSize : UInt32} {partSectors : UInt64}
    (hB : 512 ≤ blockSize.toNat) (hP : partSectors.toNat < 2 ^ 32) :
    (fatSizing blockSize partSectors).Inside partSectors.toNat ↔
      34 + (fat32SecPerClus blockSize).toNat ≤ partSectors.toNat
        ∨ 33 ≤ partSectors.toNat
          ∧ 2 ^ 32 ≤ blockSize.toNat + 4 * (partSectors.toNat - 32) + 7 := by
  obtain ⟨_, hs, _⟩ := fat32SecPerClus_bounds hB
  by_cases hroom : 34 + (fat32SecPerClus blockSize).toNat ≤ partSectors.toNat
  · refine ⟨fun _ => .inl hroom, fun _ => ?_⟩
    rcases fatSizing_cases hB hP with ⟨_, h16⟩ | ⟨_, h32⟩
    · exact ⟨h16.inside, fun h => by rw [h16.fat16] at h; cases h⟩
    · obtain ⟨first, hspec⟩ := sizeFat32_spec hB hP hroom
      rw [h32]
      exact hspec.inside
  · have h32 : fatSizing blockSize partSectors = sizeFat32 blockSize partSectors := by
      rcases fatSizing_cases hB hP with ⟨_, h16⟩ | ⟨_, h32⟩
      · have hmul := Nat.mul_le_mul h16.count.1 h16.cluster.1
        have hfits := h16.inside
        omega
      · exact h32
    rw [h32, sizeFat32_inside_small hB (by omega)]
    exact ⟨.inr, fun h => h.resolve_left hroom⟩

end Ccr2004
