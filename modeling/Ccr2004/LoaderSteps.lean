import Ccr2004.SpiLoader
import Mathlib.Order.Interval.Set.Defs

/-!
# What each step of the loader does

One specification per function of the loader that touches the machine.
`Effect m m' S` is the frame they share: the bus was only read inside the
slot, and memory was only stored to inside `S`. Sums are kept
apart: `add64_ok` and `add32_ok` say that a sum that fits leaves the machine
alone, so a step that leaves `wrapped` as it was is one whose sums all fit.
-/

namespace Ccr2004

/-- A transaction that reads inside the slot, on the address the device
takes. -/
def ReadInside (t : Transaction) : Prop :=
  ∃ a2 a1 a0, t.cmd = [cmdReadData, a2, a1, a0]
    ∧ 0x800000 ≤ NorFlash.address a2 a1 a0
    ∧ NorFlash.address a2 a1 a0 + t.count ≤ 0x1000000

/-- A read over the bus: what it asks for, and what it gets when it gets
anything. -/
theorem Spi.transfer_read (s : Spi) (addr : UInt32) (n : Nat)
    (h : addr.toNat + n ≤ 16777216) (hn : 0 < n) :
    ∃ r s' t, s.transfer (addressedCmd cmdReadData addr) [] n = (r, s')
      ∧ s'.flash = s.flash ∧ s'.log = s.log ++ [t]
      ∧ (0x800000 ≤ addr.toNat → ReadInside t)
      ∧ ∀ data, r = some data → data = s.flash.cells.read addr.toNat n := by
  rw [transfer, exec_read _ _ h hn]
  refine ⟨_, _, ⟨addressedCmd cmdReadData addr, [], n, _⟩, rfl, rfl, rfl, ?_, ?_⟩
  · intro hlow
    refine ⟨_, _, _, rfl, ?_, ?_⟩
    · rwa [address_bytes (by omega)]
    · rwa [address_bytes (by omega)]
  · intro data hdata
    split at hdata
    · cases hdata
    · exact (Option.some.inj hdata).symm

namespace Machine

/-! ## Sums -/

theorem add64_ok (m : Machine) {x y : UInt64} (h : x.toNat + y.toNat < 2 ^ 64) :
    m.add64 x y = (x + y, m) := by
  rw [add64, decide_eq_false (by omega), Bool.or_false]

theorem add32_ok (m : Machine) {x y : UInt32} (h : x.toNat + y.toNat < 2 ^ 32) :
    m.add32 x y = (x + y, m) := by
  rw [add32, decide_eq_false (by omega), Bool.or_false]

/-! ## Frames -/

/-- From `m` to `m'`, memory was stored to and changed at most on `S`, and the
bus was read inside the slot. -/
structure Effect (m m' : Machine) (S : Set Nat) : Prop where
  flash : m'.spi.flash = m.spi.flash
  reads : ∃ ts, m'.spi.log = m.spi.log ++ ts ∧ ∀ t ∈ ts, ReadInside t
  stores : ∃ rs, m'.stores = m.stores ++ rs
    ∧ ∀ r ∈ rs, ∀ x, r.1 ≤ x → x < r.1 + r.2 → x ∈ S
  mem : ∀ x, x ∉ S → m'.mem x = m.mem x

theorem Effect.refl (m : Machine) (S : Set Nat) : Effect m m S :=
  ⟨rfl, ⟨[], by simp⟩, ⟨[], by simp⟩, fun _ _ => rfl⟩

theorem Effect.trans {m m' m'' : Machine} {S : Set Nat} (h : Effect m m' S)
    (h' : Effect m' m'' S) : Effect m m'' S := by
  obtain ⟨ts, hts, hin⟩ := h.reads
  obtain ⟨ts', hts', hin'⟩ := h'.reads
  obtain ⟨rs, hrs, hrange⟩ := h.stores
  obtain ⟨rs', hrs', hrange'⟩ := h'.stores
  refine ⟨by rw [h'.flash, h.flash], ⟨ts ++ ts', ?_, ?_⟩, ⟨rs ++ rs', ?_, ?_⟩, ?_⟩
  · rw [hts', hts, List.append_assoc]
  · intro t ht
    rcases List.mem_append.mp ht with ht | ht
    · exact hin t ht
    · exact hin' t ht
  · rw [hrs', hrs, List.append_assoc]
  · intro r hr
    rcases List.mem_append.mp hr with hr | hr
    · exact hrange r hr
    · exact hrange' r hr
  · intro x hx
    rw [h'.mem x hx, h.mem x hx]

theorem Effect.mono {m m' : Machine} {S S' : Set Nat} (h : Effect m m' S)
    (hS : ∀ x, x ∈ S → x ∈ S') : Effect m m' S' := by
  obtain ⟨rs, hrs, hrange⟩ := h.stores
  refine ⟨h.flash, h.reads, ⟨rs, hrs, ?_⟩, ?_⟩
  · intro r hr x hx hx'
    exact hS x (hrange r hr x hx hx')
  · intro x hx
    exact h.mem x fun hin => hx (hS x hin)

/-- What is outside the frame reads as before. -/
theorem Effect.read_eq {m m' : Machine} {S : Set Nat} (h : Effect m m' S) {a n : Nat}
    (ha : ∀ i, i < n → a + i ∉ S) : m'.mem.read a n = m.mem.read a n := by
  apply Memory.read_congr
  intro i hi
  exact h.mem _ (ha i hi)

/-- A store inside a range that contains it. -/
theorem effect_store (m : Machine) {a : UInt64} {bs : List UInt8} {lo hi : Nat}
    (hlo : lo ≤ a.toNat) (hhi : a.toNat + bs.length ≤ hi) :
    Effect m (m.store a bs) (Set.Ico lo hi) := by
  refine ⟨rfl, ⟨[], by simp [store]⟩, ⟨[(a.toNat, bs.length)], rfl, ?_⟩, ?_⟩
  · intro r hr x hx hx'
    rw [List.mem_singleton.mp hr] at hx hx'
    exact ⟨by omega, by omega⟩
  · intro x hx
    rw [Set.mem_Ico] at hx
    exact Memory.write_outside (by omega)

/-! ## `SpiFlashRead` -/

/-- What a flash read has done when `k` bytes are in memory. -/
structure FlashReadInv (m : Machine) (off buf len : Nat) (st : FlashReadState) : Prop where
  moved : ∃ k, k + st.length.toNat = len ∧ st.flashOffset.toNat = off + k
    ∧ st.bytes.toNat = buf + k
    ∧ st.machine.mem = m.mem.write buf (m.spi.flash.cells.read off k)
  effect : Effect m st.machine (Set.Ico buf (buf + len))
  sums : st.machine.wrapped = m.wrapped

/-- What `SpiFlashRead` promises: all of the bytes, or an error. -/
structure FlashReadPost (m : Machine) (off buf len : Nat) (r : Int × Machine) : Prop where
  effect : Effect m r.2 (Set.Ico buf (buf + len))
  sums : r.2.wrapped = m.wrapped
  exact : r.1 = 0 → r.2.mem = m.mem.write buf (m.spi.flash.cells.read off len)

theorem toNat_chunk (n : UInt64) :
    (if n > 4096 then (4096 : UInt64) else n).toNat = min n.toNat 4096 := by
  split
  · rename_i h
    rw [gt_iff_lt, UInt64.lt_iff_toNat_lt] at h
    simp only [UInt64.reduceToNat] at h ⊢
    omega
  · rename_i h
    rw [gt_iff_lt, UInt64.lt_iff_toNat_lt] at h
    simp only [UInt64.reduceToNat] at h
    omega

theorem flashReadRound_spec {m : Machine} {off buf len : Nat} (hlow : 0x800000 ≤ off)
    (hhigh : off + len ≤ 0x1000000) (hbuf : buf + len < 2 ^ 64) {st : FlashReadState}
    (hst : FlashReadInv m off buf len st) :
    ∃ c, flashReadRound st = .ok c
      ∧ c.Post
        (fun st' => FlashReadInv m off buf len st' ∧ st'.length.toNat < st.length.toNat)
        (FlashReadPost m off buf len) := by
  obtain ⟨⟨k, hk, hoff, hbytes, hmem⟩, heff, hsums⟩ := hst
  rw [flashReadRound]
  by_cases hmore : st.length > 0
  · rw [if_pos hmore]
    rw [gt_iff_lt, UInt64.lt_iff_toNat_lt, UInt64.toNat_zero] at hmore
    dsimp only
    have hn := toNat_chunk st.length
    set chunk := if st.length > 4096 then (4096 : UInt64) else st.length with hchunk
    have hn32 : chunk.toUInt32.toNat = chunk.toNat := by
      rw [UInt64.toNat_toUInt32]
      omega
    obtain ⟨r, spi, t, htr, hflash, hlog, hin, hdata⟩ :=
      st.machine.spi.transfer_read st.flashOffset chunk.toNat (by omega) (by omega)
    have hbus : Effect m { st.machine with spi := spi }
        (Set.Ico buf (buf + len)) := by
      refine heff.trans ⟨hflash, ⟨[t], hlog, ?_⟩, ⟨[], by simp⟩,
        fun _ _ => rfl⟩
      intro t' ht'
      rw [List.mem_singleton.mp ht']
      exact hin (by omega)
    rw [hn32, htr]
    cases r with
    | none => exact ⟨_, rfl, hbus, hsums, by simp⟩
    | some data =>
        obtain rfl := hdata data rfl
        rw [heff.flash]
        dsimp only
        rw [add32_ok _ (by omega)]
        dsimp only
        rw [add64_ok _ (by omega)]
        refine ⟨_, rfl, ⟨⟨k + chunk.toNat, ?_, ?_, ?_, ?_⟩, ?_, hsums⟩, ?_⟩
        · dsimp only
          rw [UInt64.toNat_sub_of_le _ _ (UInt64.le_iff_toNat_le.mpr (by omega))]
          omega
        · dsimp only
          rw [UInt32.toNat_add]
          omega
        · dsimp only
          rw [UInt64.toNat_add]
          omega
        · rw [Memory.read_append, Memory.write_append, ← hmem, Memory.length_read,
            ← hoff, ← hbytes]
          rfl
        · refine hbus.trans (effect_store _ (by omega) ?_)
          rw [Memory.length_read]
          omega
        · dsimp only
          rw [UInt64.toNat_sub_of_le _ _ (UInt64.le_iff_toNat_le.mpr (by omega))]
          omega
  · rw [if_neg hmore]
    rw [gt_iff_lt, UInt64.lt_iff_toNat_lt, UInt64.toNat_zero] at hmore
    refine ⟨_, rfl, heff, hsums, fun _ => ?_⟩
    rw [hmem, show k = len by omega]

theorem spiFlashRead_spec (m : Machine) (flashOffset : UInt32) (buffer length : UInt64)
    (hlow : 0x800000 ≤ flashOffset.toNat)
    (hhigh : flashOffset.toNat + length.toNat ≤ 0x1000000)
    (hbuf : buffer.toNat + length.toNat < 2 ^ 64) :
    ∃ r, m.spiFlashRead flashOffset buffer length = .ok r
      ∧ FlashReadPost m flashOffset.toNat buffer.toNat length.toNat r := by
  have hoff : flashOffset.toUInt64.toNat = flashOffset.toNat := UInt32.toNat_toUInt64 _
  have hfits : ¬ flashOffset.toUInt64 + length > 0x01000000 := by
    rw [gt_iff_lt, UInt64.lt_iff_toNat_lt, UInt64.toNat_add, hoff]
    simp only [UInt64.reduceToNat]
    omega
  rw [spiFlashRead, add64_ok _ (by omega)]
  dsimp only
  rw [if_neg hfits]
  exact loopFuel_total
    (I := FlashReadInv m flashOffset.toNat buffer.toNat length.toNat)
    (μ := fun st => st.length.toNat)
    (fun st hst => flashReadRound_spec hlow hhigh hbuf hst)
    ⟨⟨0, Nat.zero_add _, rfl, rfl, by simp [Memory.read]⟩, Effect.refl _ _, rfl⟩
    (Nat.lt_succ_self _)

/-! ## `SpiloaderMemSet` -/

theorem memSet_spec (m : Machine) (destination length : UInt64) (value : UInt8)
    (h : destination.toNat + length.toNat < 2 ^ 64) :
    ∃ m', m.memSet destination value length = .ok m'
      ∧ Effect m m'
        (Set.Ico destination.toNat (destination.toNat + length.toNat))
      ∧ m'.wrapped = m.wrapped
      ∧ m'.mem = m.mem.write destination.toNat (List.replicate length.toNat value) := by
  set Cleared : Nat → Machine → Prop := fun i m' =>
    Effect m m' (Set.Ico destination.toNat (destination.toNat + length.toNat))
      ∧ m'.wrapped = m.wrapped
      ∧ m'.mem = m.mem.write destination.toNat (List.replicate i value)
  have hround : ∀ i m', 0 ≤ i → i < 0 + length.toNat → Cleared i m' →
      ∃ c, memSetRound destination value i m' = .ok c
        ∧ c.Post (Cleared (i + 1)) (fun _ => False) := by
    rintro i m' - hi ⟨heff, hsums, hmem⟩
    have hidx : (UInt64.ofNat i).toNat = i :=
      UInt64.toNat_ofNat_of_lt' (show i < 18446744073709551616 by omega)
    have haddr : (destination + UInt64.ofNat i).toNat = destination.toNat + i := by
      rw [UInt64.toNat_add]
      omega
    rw [memSetRound, add64_ok m' (by omega)]
    refine ⟨_, rfl, heff.trans (effect_store m' (by omega) ?_), hsums, ?_⟩
    · rw [List.length_singleton]
      omega
    · rw [List.replicate_succ', Memory.write_append, ← hmem, List.length_replicate,
        ← haddr]
      rfl
  have hstart : Cleared 0 m := ⟨Effect.refl _ _, rfl, by simp⟩
  obtain ⟨c, hc, hpost⟩ := forFrom_total hround hstart
  rw [memSet, hc]
  cases c with
  | next m' => exact ⟨m', rfl, by simpa using hpost⟩
  | exit m' => exact absurd hpost (by simp)

/-! ## `CleanInvalidateDataCacheRange` -/

/-- A cache line is a power of two. -/
theorem cacheLineBytes_pow (ctr : UInt64) :
    ∃ k : Fin 16, cacheLineBytes ctr = 4 <<< UInt64.ofNat k.val := by
  have hlt : ((ctr >>> 16) &&& 0x0F).toNat < 16 := by
    rw [UInt64.toNat_and, show (0x0F : UInt64).toNat = 2 ^ 4 - 1 from rfl,
      Nat.and_two_pow_sub_one_eq_mod]
    omega
  refine ⟨⟨((ctr >>> 16) &&& 0x0F).toNat, hlt⟩, ?_⟩
  rw [cacheLineBytes, UInt64.ofNat_toNat]

/-- Masking rounds down to a cache line. -/
theorem toNat_and_not_line (ctr x : UInt64) :
    0 < (cacheLineBytes ctr).toNat ∧ (x &&& ~~~(cacheLineBytes ctr - 1)).toNat =
      x.toNat / (cacheLineBytes ctr).toNat * (cacheLineBytes ctr).toNat := by
  obtain ⟨k, hk⟩ := cacheLineBytes_pow ctr
  have hmask : ∀ k : Fin 16, (~~~(((4 : UInt64) <<< UInt64.ofNat k.val) - 1)).toBitVec =
      BitVec.allOnes 64 <<< (k.val + 2) := by decide
  have hline : ∀ k : Fin 16, ((4 : UInt64) <<< UInt64.ofNat k.val).toNat =
      2 ^ (k.val + 2) := by decide
  rw [hk, hline k]
  refine ⟨Nat.two_pow_pos _, ?_⟩
  rw [← UInt64.toNat_toBitVec, UInt64.toBitVec_and, hmask k, toNat_and_allOnes_shiftLeft,
    UInt64.toNat_toBitVec]

/-- The lines of a range never wrap: the cursor and the end are both
multiples of the line. -/
theorem cacheRound_spec {m : Machine} {line last : UInt64} {b : Nat}
    (hpos : 0 < line.toNat) (hlast : last.toNat = b * line.toNat)
    {st : UInt64 × Machine} (hst : (∃ a, st.1.toNat = a * line.toNat) ∧ st.2 = m) :
    ∃ c, cacheRound line last st = .ok c
      ∧ c.Post
        (fun st' => ((∃ a, st'.1.toNat = a * line.toNat) ∧ st'.2 = m)
          ∧ last.toNat - st'.1.toNat < last.toNat - st.1.toNat)
        (fun m' => m' = m) := by
  obtain ⟨cursor, m'⟩ := st
  obtain ⟨⟨a, ha⟩, rfl⟩ := hst
  dsimp only at ha
  rw [cacheRound]
  by_cases hmore : cursor < last
  · dsimp only
    rw [if_pos hmore]
    rw [UInt64.lt_iff_toNat_lt, ha, hlast] at hmore
    have hab : a + 1 ≤ b := Nat.lt_of_mul_lt_mul_right hmore
    have hnext : cursor.toNat + line.toNat ≤ last.toNat := by
      rw [ha, hlast, ← Nat.succ_mul]
      exact Nat.mul_le_mul_right _ hab
    have hbound := last.toNat_lt
    rw [add64_ok m' (by omega)]
    have hsum : (cursor + line).toNat = cursor.toNat + line.toNat := by
      rw [UInt64.toNat_add]
      omega
    refine ⟨_, rfl, ⟨⟨a + 1, ?_⟩, rfl⟩, ?_⟩
    · dsimp only
      rw [hsum, ha, Nat.succ_mul]
    · dsimp only
      omega
  · exact ⟨_, if_neg hmore, rfl⟩

/-- Cache maintenance leaves memory and bus alone. Its one sum that can wrap
is the one that rounds the end of the range up. -/
theorem cleanInvalidateDataCacheRange_spec (m : Machine) (ctr : UInt64)
    {address length : UInt64} (h : address.toNat + length.toNat < 2 ^ 64) :
    ∃ m', m.cleanInvalidateDataCacheRange ctr address length = .ok m'
      ∧ m' = { m with
        wrapped := m.wrapped || decide (length ≠ 0
          ∧ 2 ^ 64 ≤ address.toNat + length.toNat + (cacheLineBytes ctr).toNat) } := by
  rw [cleanInvalidateDataCacheRange]
  by_cases hzero : length = 0
  · refine ⟨m, if_pos hzero, ?_⟩
    simp [hzero]
  · rw [if_neg hzero, add64_ok _ h]
    have hsum : (address + length).toNat = address.toNat + length.toNat := by
      rw [UInt64.toNat_add]
      omega
    set line := cacheLineBytes ctr with hline
    set m₂ := (m.add64 (address + length) line).2 with hm₂
    set last := (address + length + line - 1) &&& ~~~(line - 1) with hlastDef
    obtain ⟨hpos, hstart⟩ := toNat_and_not_line ctr address
    obtain ⟨-, hlast⟩ := toNat_and_not_line ctr (address + length + line - 1)
    rw [← hline] at hpos hstart hlast
    rw [← hlastDef] at hlast
    obtain ⟨m', hrun, rfl⟩ := loopFuel_total (k := last.toNat + 1)
      (fun st hst => cacheRound_spec (m := m₂) hpos hlast hst)
      (μ := fun st : UInt64 × Machine => last.toNat - st.1.toNat)
      (s := (address &&& ~~~(line - 1), m₂)) ⟨⟨_, hstart⟩, rfl⟩
      (Nat.lt_succ_of_le (Nat.sub_le _ _))
    refine ⟨m₂, hrun, ?_⟩
    simp [hm₂, add64, hsum, hzero]

end Machine

end Ccr2004
