import Mathlib.Tactic.Linarith
import Mathlib.Tactic.Ring
import Ccr2004.XzDict

/-!
# The parts of an XZ stream as they are written

One lemma for each of the small readers of `xz_dec_stream.c`: given the bytes
an encoder writes for a thing, and anything behind them, it reads the thing and
stops there. `decVli_ahead` is for the integers, `decIndex_ahead` for the
records of the index, which are hashed as the blocks were.
-/

namespace Ccr2004

/-! ## What is ahead in the input -/

namespace XzBuf

variable {b : XzBuf} {part rest : List UInt8}

theorem drop_moved (out : List UInt8) (h : b.input.drop b.inPos = part ++ rest) :
    (b.moved part.length out).input.drop (b.moved part.length out).inPos = rest := by
  simp only [moved]
  rw [← List.drop_drop, h, List.drop_left]

theorem length_ahead (h : b.input.drop b.inPos = part ++ rest) :
    part.length + rest.length = b.input.length - b.inPos := by
  rw [← List.length_append, ← h, List.length_drop]

theorem byte_ahead {x : UInt8} (h : b.input.drop b.inPos = x :: rest) :
    b.inPos ≠ b.input.length ∧ b.input.getD b.inPos 0 = x := by
  have hget : b.input[b.inPos]? = some x := by
    rw [← Nat.add_zero b.inPos, ← List.getElem?_drop, h]
    rfl
  refine ⟨fun hend => ?_, ?_⟩
  · rw [hend, List.getElem?_eq_none (Nat.le_refl _)] at hget
    cases hget
  · rw [List.getD_eq_getElem?_getD, hget]
    rfl

theorem skip_eq (b : XzBuf) (n : Nat) : { b with inPos := b.inPos + n } = b.moved n [] := by
  rw [moved, List.append_nil]

end XzBuf

section Parts

variable {σ : Type} {s : XzDec σ} {b : XzBuf} {rest : List UInt8}

theorem fillTemp_ahead {part : List UInt8} (hpos : s.temp.pos = 0)
    (hsize : s.temp.size = part.length) (h : b.input.drop b.inPos = part ++ rest) :
    fillTemp s b = (true, { s with temp := ⟨0, part.length, part⟩ }, b.moved part.length []) := by
  have hlen := XzBuf.length_ahead h
  have hcopy : min (b.input.length - b.inPos) (s.temp.size - s.temp.pos) = part.length := by
    rw [hpos, hsize]
    omega
  have hslice : slice b.input b.inPos part.length = part := by
    rw [slice, h, List.take_left]
  simp only [fillTemp]
  rw [hcopy, hslice, hpos, hsize, Nat.zero_add, if_pos rfl, List.take_zero, List.nil_append,
    XzBuf.skip_eq]

/-! ## Checksums -/

theorem crc32_byte (crc : UInt32) {i : Nat} (hi : i < 32) :
    (crc >>> UInt32.ofNat i) &&& 0xFF = (UInt8.ofNat (crc.toNat / 2 ^ i)).toUInt32 := by
  apply UInt32.toNat_inj.mp
  have hand : ∀ n : Nat, n &&& 255 = n % 256 := fun n => Nat.and_two_pow_sub_one_eq_mod n 8
  rw [UInt32.toNat_and, UInt32.toNat_shiftRight, UInt8.toNat_toUInt32, UInt8.toNat_ofNat',
    UInt32.toNat_ofNat', Nat.shiftRight_eq_div_pow]
  have hmod : i % 2 ^ 32 % 32 = i := by omega
  rw [hmod]
  exact hand _

/-- The bytes that are left of the checksum pass. -/
theorem crc32ValidateFrom_ahead (n : Nat) : ∀ (s : XzDec σ) (b : XzBuf) (i : Nat),
    s.pos = UInt32.ofNat i → i + 8 * (n + 1) = 32 →
    b.input.drop b.inPos = leBytes (n + 1) (s.crc32.toNat / 2 ^ i) ++ rest →
    crc32ValidateFrom (n + 1) s b = (.streamEnd, { s with crc32 := 0, pos := 0 },
      b.moved (n + 1) []) := by
  induction n with
  | zero =>
      intro s b i hpos hi h
      obtain ⟨hne, hget⟩ := XzBuf.byte_ahead h
      obtain rfl : i = 24 := by omega
      rw [crc32ValidateFrom, if_neg hne]
      simp only [hget, hpos]
      rw [if_neg (not_not.mpr (crc32_byte s.crc32 (by omega))), if_neg (by decide), XzBuf.skip_eq]
  | succ n ih =>
      intro s b i hpos hi h
      obtain ⟨hne, hget⟩ := XzBuf.byte_ahead h
      have hadd : s.pos + 8 = UInt32.ofNat (i + 8) := by
        rw [hpos, UInt32.ofNat_add]
        rfl
      have hlt : s.pos + 8 < 32 := by
        rw [hadd, UInt32.lt_iff_toNat_lt, UInt32.toNat_ofNat_of_lt' (by
          rw [UInt32.size]
          omega)]
        show i + 8 < 32
        omega
      have hdrop := @XzBuf.drop_moved b [UInt8.ofNat (s.crc32.toNat / 2 ^ i)] _ [] h
      have hdiv : s.crc32.toNat / 2 ^ i / 256 = s.crc32.toNat / 2 ^ (i + 8) := by
        rw [Nat.div_div_eq_div_mul, show 2 ^ i * 256 = 2 ^ (i + 8) from (pow_add 2 i 8).symm]
      rw [hdiv] at hdrop
      have hrest := ih { s with pos := s.pos + 8 } (b.moved 1 []) (i + 8) hadd (by omega) hdrop
      rw [crc32ValidateFrom, if_neg hne]
      simp only [hget]
      rw [hpos, if_neg (not_not.mpr (crc32_byte s.crc32 (by omega))), ← hpos, if_pos hlt, XzBuf.skip_eq]
      rw [XzBuf.moved_moved, Nat.add_comm 1] at hrest
      exact hrest

theorem crc32Validate_ahead (hpos : s.pos = 0)
    (h : b.input.drop b.inPos = leBytes 4 s.crc32.toNat ++ rest) :
    crc32Validate s b = (.streamEnd, { s with crc32 := 0, pos := 0 }, b.moved 4 []) :=
  crc32ValidateFrom_ahead 3 s b 0 hpos rfl (by rw [pow_zero, Nat.div_one]; exact h)

/-! ## Padding -/

theorem ofNat_and_three (n : Nat) : UInt64.ofNat n &&& 3 = 0 ↔ n % 4 = 0 := by
  have hand : ∀ n : Nat, n &&& 3 = n % 4 := fun n => Nat.and_two_pow_sub_one_eq_mod n 2
  rw [← UInt64.toNat_inj, UInt64.toNat_and, UInt64.toNat_ofNat']
  show n % 2 ^ 64 &&& 3 = 0 ↔ _
  rw [hand]
  omega

/-- The zeros that make a multiple of four out of `n` bytes. -/
def xzPadding (n : Nat) : List UInt8 := List.replicate ((4 - n % 4) % 4) 0

theorem xzPadding_aligned (n : Nat) : (n + (xzPadding n).length) % 4 = 0 := by
  rw [xzPadding, List.length_replicate]
  omega

theorem blockPaddingFrom_ahead (n : Nat) : ∀ (s : XzDec σ) (b : XzBuf) (size k : Nat),
    s.block.compressed = UInt64.ofNat size → (size + k) % 4 = 0 → k < 4 → k ≤ n →
    b.input.drop b.inPos = List.replicate k 0 ++ rest →
    ∃ c, blockPaddingFrom n s b = (none, { s with block := { s.block with compressed := c } },
      b.moved k []) := by
  induction n with
  | zero =>
      intro s b size k hsize hk hlt hle h
      obtain rfl := Nat.le_zero.mp hle
      exact ⟨s.block.compressed, by rw [blockPaddingFrom, XzBuf.moved_zero]⟩
  | succ n ih =>
      intro s b size k hsize hk hlt hle h
      rw [blockPaddingFrom]
      cases k with
      | zero =>
          rw [if_pos (by rw [hsize, ofNat_and_three]; exact hk)]
          exact ⟨s.block.compressed, by rw [XzBuf.moved_zero]⟩
      | succ k =>
          obtain ⟨hne, hget⟩ := XzBuf.byte_ahead (x := 0) h
          have hdrop := @XzBuf.drop_moved b [0] _ [] h
          obtain ⟨c, hc⟩ := ih { s with block := { s.block with compressed := s.block.compressed + 1 } }
            (b.moved 1 []) (size + 1) k (by rw [hsize, UInt64.ofNat_add]; rfl) (by omega) (by omega)
            (by omega) hdrop
          refine ⟨c, ?_⟩
          rw [if_neg (by rw [hsize, ofNat_and_three]; omega), if_neg hne]
          simp only [hget]
          rw [if_neg (not_not.mpr rfl), XzBuf.skip_eq]
          rw [XzBuf.moved_moved, Nat.add_comm 1] at hc
          exact hc

/-- The padding of the index is counted from where the index began. -/
theorem indexPaddingFrom_ahead (hindex : s.index.size = 0) (n : Nat) :
    ∀ (b : XzBuf) (k : Nat), s.inStart ≤ b.inPos → (b.inPos - s.inStart + k) % 4 = 0 → k < 4 → k ≤ n →
    b.input.drop b.inPos = List.replicate k 0 ++ rest →
    indexPaddingFrom n s b = (none, s, b.moved k []) := by
  induction n with
  | zero =>
      intro b k hstart hk hlt hle h
      obtain rfl := Nat.le_zero.mp hle
      rw [indexPaddingFrom, XzBuf.moved_zero]
  | succ n ih =>
      intro b k hstart hk hlt hle h
      rw [indexPaddingFrom, hindex, UInt64.zero_add]
      cases k with
      | zero =>
          rw [Nat.add_zero] at hk
          rw [if_pos ((ofNat_and_three _).mpr hk), XzBuf.moved_zero]
      | succ k =>
          obtain ⟨hne, hget⟩ := XzBuf.byte_ahead (x := 0) h
          have hdrop := @XzBuf.drop_moved b [0] _ [] h
          have hrest := ih (b.moved 1 []) k (by rw [XzBuf.moved]; simp only; omega)
            (by rw [XzBuf.moved]; simp only; omega) (by omega) (by omega) hdrop
          rw [if_neg (by rw [ofNat_and_three]; omega), if_neg hne]
          simp only [hget]
          rw [if_neg (not_not.mpr rfl), XzBuf.skip_eq]
          rw [XzBuf.moved_moved, Nat.add_comm 1] at hrest
          exact hrest

/-! ## Integers -/

/-- An integer in groups of seven bits, the lowest first, in at most `k + 1` bytes. -/
def vliBytesFrom : Nat → Nat → List UInt8
  | 0, n => [UInt8.ofNat n]
  | k + 1, n =>
      if n < 0x80 then [UInt8.ofNat n] else UInt8.ofNat (n % 0x80 + 0x80) :: vliBytesFrom k (n / 0x80)

def vliBytes (n : Nat) : List UInt8 := vliBytesFrom 8 n

theorem vliBytesFrom_pos (k n : Nat) : 0 < (vliBytesFrom k n).length := by
  cases k with
  | zero => exact Nat.one_pos
  | succ k =>
      rw [vliBytesFrom]
      split
      · exact Nat.one_pos
      · exact Nat.succ_pos _

/-- The lower groups are in `vli`; `c` is the next. -/
theorem toNat_vli {vli : UInt64} {x : UInt8} {c i : Nat} (hx : x.toNat % 0x80 = c)
    (hi : 7 * i + 7 < 64) (hvli : vli.toNat < 2 ^ (7 * i)) :
    (vli ||| ((x &&& 0x7F).toUInt64 <<< (UInt32.ofNat (7 * i)).toUInt64)).toNat
      = vli.toNat + c * 2 ^ (7 * i) := by
  have hand : ∀ n : Nat, n &&& 0x7F = n % 0x80 := fun n => Nat.and_two_pow_sub_one_eq_mod n 7
  have hc : c < 2 ^ 7 := by omega
  have hpow : c * 2 ^ (7 * i) < 2 ^ 64 := by
    calc c * 2 ^ (7 * i) < 2 ^ 7 * 2 ^ (7 * i) := Nat.mul_lt_mul_of_pos_right hc (Nat.two_pow_pos _)
      _ = 2 ^ (7 * i + 7) := by rw [pow_add, Nat.mul_comm]
      _ ≤ 2 ^ 64 := Nat.pow_le_pow_right (by decide) (by omega)
  have hshift : (UInt32.ofNat (7 * i)).toUInt64.toNat = 7 * i := by
    rw [UInt32.toNat_toUInt64, UInt32.toNat_ofNat']
    omega
  have hlow : (x &&& 0x7F).toUInt64.toNat = c := by
    rw [UInt8.toNat_toUInt64, UInt8.toNat_and]
    exact (hand _).trans hx
  have hor := Nat.two_pow_add_eq_or_of_lt hvli c
  rw [UInt64.toNat_or, UInt64.toNat_shiftLeft, hshift, hlow, Nat.mod_eq_of_lt (by omega : 7 * i < 64),
    Nat.shiftLeft_eq, Nat.mod_eq_of_lt hpow, Nat.or_comm, Nat.mul_comm, ← hor, Nat.add_comm,
    Nat.mul_comm]

theorem last_byte : ∀ n < 0x80, UInt8.ofNat n &&& 0x80 = 0 := by decide

theorem more_byte : ∀ n < 0x80, UInt8.ofNat (n + 0x80) &&& 0x80 ≠ 0 := by decide

/-- The byte that ends an integer. -/
theorem decVliFrom_last {input : List UInt8} {n fuel inPos i : Nat} {vli : UInt64} (hi : i ≤ 8)
    (hn : n < 0x80) (hzero : i = 0 ∨ 0 < n) (hvli : vli.toNat < 2 ^ (7 * i))
    (h : input.drop inPos = UInt8.ofNat n :: rest) :
    decVliFrom input (fuel + 1) inPos (UInt32.ofNat (7 * i)) vli
      = (.streamEnd, inPos + 1, 0, UInt64.ofNat (vli.toNat + n * 2 ^ (7 * i))) := by
  obtain ⟨-, hget⟩ := @XzBuf.byte_ahead ⟨input, inPos, [], 0⟩ rest _ h
  have hbyte : (UInt8.ofNat n).toNat % 0x80 = n := by
    rw [UInt8.toNat_ofNat']
    omega
  have hsum := toNat_vli hbyte (show 7 * i + 7 < 64 by omega) hvli
  -- only a single byte may be zero
  have hnonzero : ¬ (UInt8.ofNat n = 0 ∧ UInt32.ofNat (7 * i) ≠ 0) := by
    rintro ⟨hbyte0, hpos⟩
    rcases hzero with rfl | hn0
    · exact hpos rfl
    · rw [hbyte0] at hbyte
      change 0 = n at hbyte
      omega
  simp only at hget
  rw [decVliFrom]
  simp only [hget]
  rw [if_pos (last_byte n hn), if_neg hnonzero, ← hsum, UInt64.ofNat_toNat]

/-- A byte that more bytes follow. -/
theorem decVliFrom_more {input : List UInt8} {c fuel inPos i : Nat} {vli : UInt64} (hi : i < 8)
    (hc : c < 0x80) (hvli : vli.toNat < 2 ^ (7 * i))
    (h : input.drop inPos = UInt8.ofNat (c + 0x80) :: rest) :
    ∃ vli', vli'.toNat = vli.toNat + c * 2 ^ (7 * i) ∧ vli'.toNat < 2 ^ (7 * (i + 1))
      ∧ decVliFrom input (fuel + 1) inPos (UInt32.ofNat (7 * i)) vli
        = decVliFrom input fuel (inPos + 1) (UInt32.ofNat (7 * (i + 1))) vli' := by
  obtain ⟨-, hget⟩ := @XzBuf.byte_ahead ⟨input, inPos, [], 0⟩ rest _ h
  have hbyte : (UInt8.ofNat (c + 0x80)).toNat % 0x80 = c := by
    rw [UInt8.toNat_ofNat']
    omega
  have hsum := toNat_vli hbyte (show 7 * i + 7 < 64 by omega) hvli
  have hadd : UInt32.ofNat (7 * i) + 7 = UInt32.ofNat (7 * (i + 1)) := by
    rw [Nat.mul_succ, UInt32.ofNat_add]
    rfl
  have hpos : UInt32.ofNat (7 * (i + 1)) ≠ 7 * 9 := by
    intro heq
    have hval := congrArg UInt32.toNat heq
    rw [UInt32.toNat_ofNat'] at hval
    change 7 * (i + 1) % 2 ^ 32 = 63 at hval
    omega
  refine ⟨_, hsum, ?_, ?_⟩
  · rw [hsum, Nat.mul_succ, pow_add]
    nlinarith [Nat.two_pow_pos (7 * i)]
  · simp only at hget
    rw [decVliFrom]
    simp only [hget]
    rw [if_neg (more_byte c hc), hadd, if_neg hpos]

theorem decVliFrom_ahead {input : List UInt8} (k : Nat) : ∀ (n fuel inPos i : Nat) (vli : UInt64),
    i + k = 8 → n < 2 ^ (7 * (k + 1)) → (i = 0 ∨ 0 < n) → vli.toNat < 2 ^ (7 * i) →
    (vliBytesFrom k n).length ≤ fuel → input.drop inPos = vliBytesFrom k n ++ rest →
    decVliFrom input fuel inPos (UInt32.ofNat (7 * i)) vli
      = (.streamEnd, inPos + (vliBytesFrom k n).length, 0,
          UInt64.ofNat (vli.toNat + n * 2 ^ (7 * i))) := by
  induction k with
  | zero =>
      intro n fuel inPos i vli hi hn hzero hvli hfuel h
      obtain ⟨fuel, rfl⟩ := Nat.exists_eq_succ_of_ne_zero (Nat.pos_iff_ne_zero.mp hfuel)
      exact decVliFrom_last (by omega) hn hzero hvli h
  | succ k ih =>
      intro n fuel inPos i vli hi hn hzero hvli hfuel h
      obtain ⟨fuel, rfl⟩ := Nat.exists_eq_succ_of_ne_zero
        (Nat.pos_iff_ne_zero.mp ((vliBytesFrom_pos (k + 1) n).trans_le hfuel))
      rw [vliBytesFrom] at h hfuel ⊢
      split at h
      · rename_i hsmall
        rw [if_pos hsmall]
        exact decVliFrom_last (by omega) hsmall hzero hvli h
      · rename_i hbig
        rw [if_neg hbig] at hfuel ⊢
        obtain ⟨vli', hsum, hvli', hmore⟩ := decVliFrom_more (by omega)
          (Nat.mod_lt n (by decide)) hvli h
        have hdrop : input.drop (inPos + 1) = vliBytesFrom k (n / 0x80) ++ rest := by
          rw [← List.drop_drop, h]
          rfl
        have hn' : n / 0x80 < 2 ^ (7 * (k + 1)) := by
          rw [Nat.mul_succ 7 (k + 1), pow_add] at hn
          exact Nat.div_lt_of_lt_mul (by rw [Nat.mul_comm]; exact hn)
        have hsplit : vli'.toNat + n / 0x80 * 2 ^ (7 * (i + 1)) = vli.toNat + n * 2 ^ (7 * i) := by
          conv_rhs => rw [← Nat.mod_add_div n 0x80]
          rw [hsum, Nat.mul_succ, pow_add]
          ring
        rw [hmore, ih (n / 0x80) fuel (inPos + 1) (i + 1) vli' (by omega) hn' (Or.inr (by omega))
          hvli' (Nat.le_of_succ_le_succ hfuel) hdrop, hsplit, List.length_cons, Nat.add_right_comm,
          Nat.add_assoc]

/-- The integer is read whole. -/
theorem decVli_ahead {n : Nat} (hpos : s.pos = 0) (hn : n < 2 ^ 63)
    (h : b.input.drop b.inPos = vliBytes n ++ rest) :
    decVli s b.input b.inPos b.input.length
      = (.streamEnd, b.inPos + (vliBytes n).length, { s with vli := UInt64.ofNat n }) := by
  have hlen := XzBuf.length_ahead h
  have hfrom := decVliFrom_ahead 8 n (b.input.length - b.inPos) b.inPos 0 0 rfl hn (Or.inl rfl)
    (by decide) (by rw [← vliBytes]; omega) h
  rw [decVli, hpos, if_pos rfl]
  change decVliFrom b.input (b.input.length - b.inPos) b.inPos 0 0 = _ at hfrom
  rw [hfrom]
  simp only [vliBytes, Nat.mul_zero, pow_zero, Nat.mul_one, UInt64.toNat_zero, Nat.zero_add, ← hpos]

/-! ## The index -/

/-- A record of the index. -/
structure XzRecord where
  unpadded : Nat
  uncompressed : Nat
deriving Repr, DecidableEq

def XzRecord.bytes (r : XzRecord) : List UInt8 := vliBytes r.unpadded ++ vliBytes r.uncompressed

/-- Both integers can be written. -/
def XzRecord.Fits (r : XzRecord) : Prop := r.unpadded < 2 ^ 63 ∧ r.uncompressed < 2 ^ 63

instance (r : XzRecord) : Decidable r.Fits := inferInstanceAs (Decidable (_ ∧ _))

theorem XzRecord.two_le_length (r : XzRecord) : 2 ≤ r.bytes.length := by
  have h := vliBytesFrom_pos 8 r.unpadded
  have h' := vliBytesFrom_pos 8 r.uncompressed
  rw [XzRecord.bytes, List.length_append, vliBytes, vliBytes]
  omega

/-- One record more in the hash. -/
def XzHash.add (h : XzHash) (r : XzRecord) : XzHash :=
  let h : XzHash := { h with
    unpadded := h.unpadded + UInt64.ofNat r.unpadded
    uncompressed := h.uncompressed + UInt64.ofNat r.uncompressed }
  { h with crc32 := xzCrc32 h.bytes h.crc32 }

theorem decIndexFrom_record {r : XzRecord} (n : Nat) (hq : s.index.sequence = .unpadded)
    (hpos : s.pos = 0) (hcount : s.index.count > 0) (hr : r.Fits)
    (h : b.input.drop b.inPos = r.bytes ++ rest) :
    ∃ s' : XzDec σ, s' = { s with
        vli := UInt64.ofNat r.uncompressed
        index := ⟨.unpadded, s.index.size, s.index.count - 1, s.index.hash.add r⟩ }
      ∧ decIndexFrom (n + 2) s b
        = if s.index.count - 1 > 0 then decIndexFrom n s' (b.moved r.bytes.length [])
          else (.streamEnd, s', b.moved r.bytes.length []) := by
  rw [XzRecord.bytes, List.append_assoc] at h
  have hvli := decVli_ahead hpos hr.1 h
  have hdrop := XzBuf.drop_moved [] h
  refine ⟨_, rfl, ?_⟩
  rw [decIndexFrom, hvli]
  simp only [hq]
  rw [if_neg (not_not.mpr rfl), if_pos hcount, XzBuf.skip_eq, decIndexFrom,
    decVli_ahead (s := { s with
      vli := UInt64.ofNat r.unpadded
      index := { s.index with
        hash := { s.index.hash with unpadded := s.index.hash.unpadded + UInt64.ofNat r.unpadded }
        sequence := .uncompressed } }) hpos hr.2 hdrop]
  simp only
  rw [if_neg (not_not.mpr rfl), XzBuf.skip_eq, XzBuf.moved_moved, ← List.length_append,
    ← XzRecord.bytes]
  rfl

theorem ofNat_pos_iff {n : Nat} (h : n < 2 ^ 63) : UInt64.ofNat n > 0 ↔ 0 < n := by
  rw [gt_iff_lt, UInt64.lt_iff_toNat_lt, toNat_ofNat_of_lt (by omega)]
  exact Iff.rfl

theorem ofNat_succ_sub_one (n : Nat) : UInt64.ofNat (n + 1) - 1 = UInt64.ofNat n := by
  rw [UInt64.ofNat_add]
  exact UInt64.add_sub_cancel _ _

/-- The records are hashed one after the other. -/
theorem decIndexFrom_records {records : List XzRecord} : ∀ {s : XzDec σ} {b : XzBuf} {n : Nat},
    records ≠ [] → records.length < 2 ^ 63 → (∀ r ∈ records, r.Fits) →
    s.index.sequence = .unpadded → s.pos = 0 → s.index.count = UInt64.ofNat records.length →
    2 * records.length ≤ n → b.input.drop b.inPos = records.flatMap XzRecord.bytes ++ rest →
    ∃ vli, decIndexFrom n s b = (.streamEnd, { s with
        vli := vli
        index := ⟨.unpadded, s.index.size, 0, records.foldl XzHash.add s.index.hash⟩ },
      b.moved (records.flatMap XzRecord.bytes).length []) := by
  induction records with
  | nil => intro _ _ _ hne; exact absurd rfl hne
  | cons r records ih =>
      intro s b n _ hlen hfits hq hpos hcount hn h
      obtain ⟨n, rfl⟩ : ∃ m, n = m + 2 := ⟨n - 2, by rw [List.length_cons] at hn; omega⟩
      rw [List.flatMap_cons, List.append_assoc] at h
      have hpositive : s.index.count > 0 := by
        rw [hcount]
        exact (ofNat_pos_iff hlen).mpr (Nat.succ_pos _)
      obtain ⟨s', hs', hone⟩ := decIndexFrom_record n hq hpos hpositive (hfits r List.mem_cons_self) h
      have hless : s.index.count - 1 = UInt64.ofNat records.length := by
        rw [hcount, List.length_cons, ofNat_succ_sub_one]
      have hlen' : records.length < 2 ^ 63 := Nat.lt_of_succ_lt hlen
      rw [hone]
      -- the loop goes on while the count is not used up
      cases hrecords : records with
      | nil =>
          rw [hrecords] at hless
          have hzero : s.index.count - 1 = 0 := hless
          rw [if_neg (by rw [hzero]; decide), hs', hzero]
          refine ⟨UInt64.ofNat r.uncompressed, ?_⟩
          rw [List.flatMap_cons, List.flatMap_nil, List.append_nil]
          rfl
      | cons r' records' =>
          rw [← hrecords]
          have hne : records ≠ [] := by rw [hrecords]; exact List.cons_ne_nil _ _
          have hmore : s.index.count - 1 > 0 := by
            rw [hless]
            exact (ofNat_pos_iff hlen').mpr (List.length_pos_iff.mpr hne)
          have hs'q : s'.index.sequence = .unpadded := by rw [hs']
          have hs'pos : s'.pos = 0 := by rw [hs']; exact hpos
          have hs'count : s'.index.count = UInt64.ofNat records.length := by rw [hs']; exact hless
          obtain ⟨vli, hrest⟩ := ih hne hlen' (fun r hr => hfits r (List.mem_cons_of_mem _ hr))
            hs'q hs'pos hs'count (n := n) (by rw [List.length_cons] at hn; omega)
            (XzBuf.drop_moved [] h)
          refine ⟨vli, ?_⟩
          rw [if_pos hmore, hrest, XzBuf.moved_moved, ← List.length_append, List.flatMap_cons, hs']
          rfl

theorem two_le_records (records : List XzRecord) :
    2 * records.length ≤ (records.flatMap XzRecord.bytes).length := by
  induction records with
  | nil => exact Nat.zero_le _
  | cons r records ih =>
      have hr := r.two_le_length
      rw [List.flatMap_cons, List.length_append, List.length_cons]
      omega

/-- The index is read whole. -/
theorem decIndex_ahead {records : List XzRecord} (hindex : s.index = ⟨.count, 0, 0, ⟨0, 0, 0⟩⟩)
    (hpos : s.pos = 0) (hcount : s.block.count = UInt64.ofNat records.length)
    (hlen : records.length < 2 ^ 63) (hfits : ∀ r ∈ records, r.Fits)
    (h : b.input.drop b.inPos
      = vliBytes records.length ++ (records.flatMap XzRecord.bytes ++ rest)) :
    ∃ vli, decIndex s b = (.streamEnd, { s with
        vli := vli
        index := ⟨.unpadded, 0, 0, records.foldl XzHash.add ⟨0, 0, 0⟩⟩ },
      b.moved (vliBytes records.length ++ records.flatMap XzRecord.bytes).length []) := by
  have hahead := XzBuf.length_ahead h
  have htwo := two_le_records records
  rw [List.length_append] at hahead
  have hfuel : 2 * records.length ≤ b.input.length - b.inPos := by omega
  rw [decIndex, decIndexFrom, decVli_ahead hpos hlen h, hindex]
  simp only
  rw [if_neg (not_not.mpr rfl), if_neg (not_not.mpr hcount.symm), XzBuf.skip_eq]
  cases hrecords : records with
  | nil => exact ⟨0, by rw [if_neg (by decide)]; rfl⟩
  | cons r records' =>
      rw [← hrecords]
      have hne : records ≠ [] := by rw [hrecords]; exact List.cons_ne_nil _ _
      obtain ⟨vli, hrest⟩ := decIndexFrom_records (s := { s with
          vli := UInt64.ofNat records.length
          index := ⟨.unpadded, 0, UInt64.ofNat records.length, ⟨0, 0, 0⟩⟩ })
        hne hlen hfits rfl hpos rfl hfuel (XzBuf.drop_moved [] h)
      refine ⟨vli, ?_⟩
      rw [if_pos ((ofNat_pos_iff hlen).mpr (List.length_pos_iff.mpr hne)), hrest,
        XzBuf.moved_moved, ← List.length_append]
      rfl

end Parts

end Ccr2004
