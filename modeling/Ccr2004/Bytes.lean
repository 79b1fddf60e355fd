import Ccr2004.Run
import Mathlib.Data.Nat.Digits.Lemmas

/-!
# Little-endian words

A word in memory is its bytes, least significant first. `leNat` is the
value of a byte list (Mathlib's `Nat.ofDigits` in base 256) and `leBytes`
the fixed-width encoding; they are inverse on values that fit.
-/

namespace Ccr2004

/-- The value of a little-endian byte list. -/
def leNat (bs : List UInt8) : Nat :=
  Nat.ofDigits 256 (bs.map UInt8.toNat)

/-- `n` little-endian bytes of `v`. -/
def leBytes : Nat → Nat → List UInt8
  | 0, _ => []
  | n + 1, v => UInt8.ofNat v :: leBytes n (v / 256)

@[simp] theorem leNat_nil : leNat [] = 0 := rfl

theorem leNat_cons (b : UInt8) (bs : List UInt8) :
    leNat (b :: bs) = b.toNat + 256 * leNat bs := by
  simp [leNat, Nat.ofDigits_cons]

theorem readByte (b : UInt8) : UInt8.ofNat (leNat [b]) = b := by
  rw [leNat_cons, leNat_nil, Nat.mul_zero, Nat.add_zero, UInt8.ofNat_toNat]

@[simp] theorem length_leBytes : ∀ n v : Nat, (leBytes n v).length = n
  | 0, _ => rfl
  | n + 1, v => by rw [leBytes, List.length_cons, length_leBytes]

theorem leNat_lt : ∀ bs : List UInt8, leNat bs < 256 ^ bs.length
  | [] => by simp
  | b :: bs => by
      have hb : b.toNat < 256 := b.toNat_lt
      have hrec := leNat_lt bs
      rw [leNat_cons, List.length_cons, Nat.pow_succ]
      omega

/-- Decoding an encoding gives the value back, reduced to its width. -/
theorem leNat_leBytes : ∀ n v : Nat, leNat (leBytes n v) = v % 256 ^ n
  | 0, v => by simp [leBytes, Nat.mod_one]
  | n + 1, v => by
      have hbyte : (UInt8.ofNat v).toNat = v % 256 := by simp
      rw [leBytes, leNat_cons, leNat_leBytes n (v / 256), hbyte,
        Nat.pow_succ', Nat.mod_mul]

theorem leNat_leBytes_of_lt {n v : Nat} (h : v < 256 ^ n) :
    leNat (leBytes n v) = v := by
  rw [leNat_leBytes, Nat.mod_eq_of_lt h]

theorem leNat_append (bs bs' : List UInt8) :
    leNat (bs ++ bs') = leNat bs + 256 ^ bs.length * leNat bs' := by
  rw [leNat, List.map_append, Nat.ofDigits_append, List.length_map]
  rfl

/-- Encoding a decoded word gives its bytes back. -/
theorem leBytes_leNat (bs : List UInt8) : leBytes bs.length (leNat bs) = bs := by
  induction bs with
  | nil => rfl
  | cons b bs ih =>
      have hb : b.toNat < 256 := b.toNat_lt
      have hlow : UInt8.ofNat (leNat (b :: bs)) = b := by
        apply UInt8.toNat_inj.mp
        rw [UInt8.toNat_ofNat', leNat_cons]
        omega
      have hhigh : leNat (b :: bs) / 256 = leNat bs := by
        rw [leNat_cons]
        omega
      rw [List.length_cons, leBytes, hlow, hhigh, ih]

/-- A byte list is determined by its value and its length. -/
theorem leNat_inj {bs bs' : List UInt8} (hlen : bs.length = bs'.length)
    (h : leNat bs = leNat bs') : bs = bs' := by
  rw [← leBytes_leNat bs, ← leBytes_leNat bs', h, hlen]

/-! ## Alignment -/

/-- Clearing the low bits is shifting them out and back. -/
theorem and_allOnes_shiftLeft {w : Nat} (x : BitVec w) (n : Nat) :
    x &&& (BitVec.allOnes w <<< n) = (x >>> n) <<< n := by
  ext i hi
  rw [BitVec.getElem_and, BitVec.getElem_shiftLeft, BitVec.getElem_shiftLeft,
    BitVec.getElem_allOnes, BitVec.getElem_ushiftRight]
  by_cases h : i < n
  · simp [h]
  · simp [h, BitVec.getLsbD_eq_getElem hi, show n + (i - n) = i by omega]

/-- Clearing the low bits rounds down to a multiple. -/
theorem toNat_and_allOnes_shiftLeft {w : Nat} (x : BitVec w) (n : Nat) :
    (x &&& (BitVec.allOnes w <<< n)).toNat = x.toNat / 2 ^ n * 2 ^ n := by
  have hle : x.toNat / 2 ^ n * 2 ^ n ≤ x.toNat := Nat.div_mul_le_self _ _
  rw [and_allOnes_shiftLeft, BitVec.toNat_shiftLeft, BitVec.toNat_ushiftRight,
    Nat.shiftLeft_eq, Nat.shiftRight_eq_div_pow,
    Nat.mod_eq_of_lt (Nat.lt_of_le_of_lt hle x.isLt)]

/-! ## Sums that do not wrap -/

theorem toNat_add_of_lt {a b : UInt64} {n m : Nat} (ha : a.toNat = n) (hb : b.toNat = m)
    (h : n + m < 2 ^ 64) : (a + b).toNat = n + m := by
  rw [UInt64.toNat_add, ha, hb, Nat.mod_eq_of_lt h]

theorem toNat_ofNat_of_lt {i : Nat} (h : i < 2 ^ 64) : (UInt64.ofNat i).toNat = i := by
  rw [UInt64.toNat_ofNat', Nat.mod_eq_of_lt h]

/-! ## Buffers -/

/-- The bytes `[off, off + n)` of a buffer. -/
def slice {α : Type} (bs : List α) (off n : Nat) : List α :=
  (bs.drop off).take n

theorem length_slice {α : Type} {bs : List α} {off n : Nat}
    (h : off + n ≤ bs.length) : (slice bs off n).length = n := by
  simp only [slice, List.length_take, List.length_drop]
  omega

/-- The middle part of a concatenation. -/
theorem slice_mid {α : Type} {pre mid : List α} (post : List α) {off n : Nat}
    (hoff : pre.length = off) (hn : mid.length = n) :
    slice (pre ++ (mid ++ post)) off n = mid := by
  rw [slice, ← hoff, ← hn, List.drop_left, List.take_left]

/-- A slice that starts past the first part of a concatenation. -/
theorem slice_append_of_le {α : Type} {pre post : List α} {off n : Nat}
    (h : pre.length ≤ off) : slice (pre ++ post) off n = slice post (off - pre.length) n := by
  rw [slice, slice, List.drop_append, List.drop_of_length_le h, List.nil_append]

/-- The first part of a concatenation. -/
theorem slice_append_here {α : Type} {pre post : List α} {n : Nat} (h : pre.length = n) :
    slice (pre ++ post) 0 n = pre := by
  rw [slice, List.drop_zero, ← h, List.take_left]

/-- Slices that follow each other make one slice. -/
theorem slice_add {α : Type} (bs : List α) (off n k : Nat) :
    slice bs off (n + k) = slice bs off n ++ slice bs (off + n) k := by
  rw [slice, slice, slice, List.take_add, List.drop_drop]

/-- A slice of what is left of a buffer is a slice of the buffer. -/
theorem slice_drop {α : Type} (bs : List α) (start off n : Nat) :
    slice (bs.drop start) off n = slice bs (start + off) n := by
  rw [slice, slice, List.drop_drop]

/-- A slice of a slice. -/
theorem slice_slice {α : Type} (bs : List α) {start len off n : Nat}
    (h : off + n ≤ len) : slice (slice bs start len) off n = slice bs (start + off) n := by
  rw [slice, slice, slice, List.drop_take, List.drop_drop, List.take_take,
    Nat.min_eq_left (by omega)]

theorem leNat_slice_lt (bs : List UInt8) (off n : Nat) :
    leNat (slice bs off n) < 256 ^ n :=
  Nat.lt_of_lt_of_le (leNat_lt _)
    (Nat.pow_le_pow_right (by omega) (List.length_take_le _ _))

theorem leBytes_slice {bs : List UInt8} {off n : Nat} (h : off + n ≤ bs.length) :
    leBytes n (leNat (slice bs off n)) = slice bs off n := by
  have hself := leBytes_leNat (slice bs off n)
  rwa [length_slice h] at hself

/-- Read `n` bytes of a buffer at `off`. -/
def loadSlice {α : Type} (buf : List α) (off n : Nat) : Run (List α) :=
  if off + n ≤ buf.length then .ok (slice buf off n) else .error .outOfBounds

/-- Store bytes into a buffer at `off`. -/
def storeSlice {α : Type} (buf : List α) (off : Nat) (bs : List α) : Run (List α) :=
  if off + bs.length ≤ buf.length then
    .ok (buf.take off ++ bs ++ buf.drop (off + bs.length))
  else .error .outOfBounds

theorem loadSlice_ok {α : Type} {buf : List α} {off n : Nat}
    (h : off + n ≤ buf.length) : loadSlice buf off n = .ok (slice buf off n) :=
  if_pos h

theorem storeSlice_ok {α : Type} {buf bs : List α} {off : Nat}
    (h : off + bs.length ≤ buf.length) :
    storeSlice buf off bs = .ok (buf.take off ++ bs ++ buf.drop (off + bs.length)) :=
  if_pos h

/-- Storing right behind the part of a buffer that is filled. -/
theorem storeSlice_behind {α : Type} {front buf bs : List α} {off : Nat}
    (hfront : front.length = off) (h : off + bs.length ≤ buf.length) :
    storeSlice (front ++ buf.drop off) off bs =
      .ok (front ++ bs ++ buf.drop (off + bs.length)) := by
  subst hfront
  have hlen : front.length + bs.length ≤ (front ++ buf.drop front.length).length := by
    rw [List.length_append, List.length_drop]
    omega
  rw [storeSlice_ok hlen, List.take_left, List.drop_append,
    List.drop_of_length_le (Nat.le_add_right _ _), List.nil_append, List.drop_drop,
    Nat.add_sub_cancel_left]

end Ccr2004
