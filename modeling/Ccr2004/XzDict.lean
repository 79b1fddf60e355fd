import Ccr2004.Lz77
import Ccr2004.XzStream

/-!
# The dictionary of the LZMA2 decoder

The first part of `XzDec/xz_dec_lzma2.c`. In single-call mode the dictionary is
the output buffer from `base` on; in multi-call mode it is a ring of `size`
bytes that is copied out. `Dictionary.Holds` says that either is a window on
the history since the last reset, and one lemma for each operation says what
it does to that history.
-/

namespace Ccr2004

namespace XzBuf

/-- Read on by `n` bytes, and write `bytes`. -/
def moved (b : XzBuf) (n : Nat) (bytes : List UInt8) : XzBuf :=
  { b with inPos := b.inPos + n, out := b.out ++ bytes }

theorem moved_moved (b : XzBuf) (n m : Nat) (bytes bytes' : List UInt8) :
    (b.moved n bytes).moved m bytes' = b.moved (n + m) (bytes ++ bytes') := by
  simp only [moved, Nat.add_assoc, List.append_assoc]

@[simp] theorem moved_zero (b : XzBuf) : b.moved 0 [] = b := by
  rw [moved, Nat.add_zero, List.append_nil]

theorem advances_moved {b : XzBuf} {n : Nat} {bytes : List UInt8}
    (hin : b.inPos ≤ b.input.length → b.inPos + n ≤ b.input.length)
    (hout : b.out.length ≤ b.outSize → b.out.length + bytes.length ≤ b.outSize) :
    b.Advances (b.moved n bytes) where
  input := rfl
  outSize := rfl
  inPos := Nat.le_add_right _ _
  out := List.prefix_append _ _
  valid hb := ⟨hin hb.inside, by rw [moved, List.length_append]; exact hout hb.fits⟩

/-- How many of `left` bytes can be read and written. -/
def room (b : XzBuf) (left : Nat) : Nat :=
  min left (min (b.input.length - b.inPos) (b.outSize - b.out.length))

theorem room_le (b : XzBuf) (left : Nat) : b.room left ≤ left := Nat.min_le_left _ _

end XzBuf

/-- `struct dictionary`: `buf` is what was written of the buffer since the
reset, `base` the output position the buffer begins at in single-call mode. -/
@[ext] structure Dictionary where
  mode : XzMode
  base : Nat
  buf : List UInt8
  start : Nat
  pos : Nat
  full : Nat
  limit : Nat
  bufEnd : Nat
  size : Nat
  sizeMax : Nat
deriving Repr, DecidableEq

namespace Dictionary

def load (d : Dictionary) (offset : Int) : Run UInt8 :=
  if offset < 0 then .error .outOfBounds
  else match d.buf[offset.toNat]? with
    | some byte => .ok byte
    | none => .error .outOfBounds

/-- The dictionary with bytes copied to `pos`. -/
def written (d : Dictionary) (bytes : List UInt8) : Dictionary :=
  { d with buf := d.buf.take d.pos ++ bytes ++ d.buf.drop (d.pos + bytes.length)
           pos := d.pos + bytes.length }

/-- A copy has to stay inside the buffer, and leaves no gap in what was written. -/
def store (d : Dictionary) (bytes : List UInt8) : Run Dictionary :=
  if d.pos + bytes.length ≤ d.bufEnd ∧ d.pos ≤ d.buf.length then .ok (d.written bytes)
  else .error .outOfBounds

/-- `if (dict->full < dict->pos) dict->full = dict->pos`. -/
def fill (d : Dictionary) : Dictionary :=
  { d with full := if d.full < d.pos then d.pos else d.full }

/-- `if (dict->pos == dict->end) dict->pos = 0`, in multi-call mode. -/
def wrap (d : Dictionary) : Dictionary :=
  { d with pos := if d.mode = .prealloc ∧ d.pos = d.bufEnd then 0 else d.pos }

/-- `dict->start = dict->pos`. -/
def settle (d : Dictionary) : Dictionary := { d with start := d.pos }

def reset (d : Dictionary) (b : XzBuf) : Dictionary :=
  { d with
    base := if d.mode = .single then b.out.length else d.base
    bufEnd := if d.mode = .single then b.outSize - b.out.length else d.bufEnd
    buf := []
    start := 0
    pos := 0
    limit := 0
    full := 0 }

def setLimit (d : Dictionary) (outMax : Nat) : Dictionary :=
  { d with limit := if d.bufEnd - d.pos ≤ outMax then d.bufEnd else d.pos + outMax }

def hasSpace (d : Dictionary) : Bool := d.pos < d.limit

/-- `pos - dist - 1`, from the end of the buffer where that is negative. -/
def back (d : Dictionary) (dist : Nat) : Int :=
  let offset : Int := d.pos - dist - 1
  if dist ≥ d.pos then offset + d.bufEnd else offset

def get (d : Dictionary) (dist : Nat) : Run UInt8 :=
  if d.full > 0 then d.load (d.back dist) else .ok 0

def put (d : Dictionary) (byte : UInt8) : Run Dictionary := do
  let d ← d.store [byte]
  .ok d.fill

/-- The rounds of the copying loop of `dict_repeat`. -/
def repeatFrom : Nat → Dictionary → Int → Run Dictionary
  | 0, d, _ => .ok d
  | n + 1, d, back => do
      let byte ← d.load back
      let d ← d.store [byte]
      repeatFrom n d (if back + 1 = d.bufEnd then 0 else back + 1)

/-- `dict_repeat`: `none` for an invalid distance, else the dictionary and
what is left of `len`. The loop tests `--left` after its body, in 32 bits. -/
def «repeat» (d : Dictionary) (len dist : Nat) : Run (Option (Dictionary × Nat)) :=
  if dist ≥ d.full ∨ dist ≥ d.size then .ok none
  else do
    let left := min (d.limit - d.pos) len
    let d ← repeatFrom (if left = 0 then 2 ^ 32 else left) d (d.back dist)
    .ok (some (d.fill, len - left))

/-- One round of `dict_uncompressed`. -/
def uncompressedRound (c : Dictionary × XzBuf × Nat) :
    Run (Flow (Dictionary × XzBuf × Nat) (Dictionary × XzBuf × Nat)) :=
  let (d, b, left) := c
  if left > 0 ∧ b.inPos < b.input.length ∧ b.out.length < b.outSize then do
    let copySize := min (b.input.length - b.inPos) (b.outSize - b.out.length)
    let copySize := if copySize > d.bufEnd - d.pos then d.bufEnd - d.pos else copySize
    let copySize := if copySize > left then left else copySize
    let bytes := (b.input.drop b.inPos).take copySize
    let d ← d.store bytes
    .ok (.next (d.fill.wrap.settle,
      { b with inPos := b.inPos + copySize, out := b.out ++ bytes }, left - copySize))
  else .ok (.exit c)

/-- `dict_uncompressed`. In single-call mode the copy into the dictionary is
the copy into the output. -/
def uncompressed (d : Dictionary) (b : XzBuf) (left : Nat) : Run (Dictionary × XzBuf × Nat) :=
  loopFuel uncompressedRound (left + 1) (d, b, left)

/-- `dict_flush`. In single-call mode the bytes are in the output already, and
only `out_pos` moves. -/
def flush (d : Dictionary) (b : XzBuf) : Nat × Dictionary × XzBuf :=
  let copySize := d.pos - d.start
  let out := b.out ++ (d.buf.drop d.start).take copySize
  (copySize, d.wrap.settle, { b with out := out })

/-! ## The window on the history -/

/-- Where the byte at distance `k` is. -/
def cell (d : Dictionary) (k : Nat) : Nat :=
  if k < d.pos then d.pos - 1 - k else d.bufEnd + d.pos - 1 - k

theorem cell_lt {d : Dictionary} {k : Nat} (h : k < d.pos) : d.cell k = d.pos - 1 - k := if_pos h

theorem cell_ge {d : Dictionary} {k : Nat} (h : ¬ k < d.pos) :
    d.cell k = d.bufEnd + d.pos - 1 - k := if_neg h

/-- What was written is the newest part of `past`: all of it, or a full ring. -/
structure Window (d : Dictionary) (past : List UInt8) : Prop where
  pos_le : d.pos ≤ d.buf.length
  length_le : d.buf.length ≤ d.bufEnd
  shape : (d.buf.length = d.pos ∧ past.length = d.pos)
    ∨ (d.mode = .prealloc ∧ d.buf.length = d.bufEnd ∧ d.bufEnd ≤ past.length)
  cells : ∀ k < d.buf.length, d.buf[d.cell k]? = past[k]?

section Written

variable (d : Dictionary) (bytes : List UInt8)

@[simp] theorem written_pos : (d.written bytes).pos = d.pos + bytes.length := rfl

@[simp] theorem written_mode : (d.written bytes).mode = d.mode := rfl

@[simp] theorem written_start : (d.written bytes).start = d.start := rfl

@[simp] theorem written_full : (d.written bytes).full = d.full := rfl

@[simp] theorem written_limit : (d.written bytes).limit = d.limit := rfl

@[simp] theorem written_bufEnd : (d.written bytes).bufEnd = d.bufEnd := rfl

@[simp] theorem written_size : (d.written bytes).size = d.size := rfl

@[simp] theorem written_base : (d.written bytes).base = d.base := rfl

theorem written_buf : (d.written bytes).buf
    = d.buf.take d.pos ++ bytes ++ d.buf.drop (d.pos + bytes.length) := rfl

@[simp] theorem written_nil : d.written [] = d := by
  cases d
  simp [written]

variable {d}

theorem length_written (h : d.pos ≤ d.buf.length) :
    (d.written bytes).buf.length = max d.buf.length (d.pos + bytes.length) := by
  simp only [written_buf, List.length_append, List.length_take, List.length_drop]
  omega

/-- Two copies in a row are one. -/
theorem written_written (h : d.pos ≤ d.buf.length) (bytes' : List UInt8) :
    (d.written bytes).written bytes' = d.written (bytes ++ bytes') := by
  have hlen : (d.buf.take d.pos ++ bytes).length = d.pos + bytes.length := by
    rw [List.length_append, List.length_take]
    omega
  have htake : (d.written bytes).buf.take (d.pos + bytes.length) = d.buf.take d.pos ++ bytes := by
    rw [written_buf, ← hlen, List.take_left]
  have hdrop : (d.written bytes).buf.drop (d.pos + bytes.length + bytes'.length)
      = d.buf.drop (d.pos + (bytes ++ bytes').length) := by
    rw [written_buf, List.length_append, ← hlen, List.drop_append, List.drop_drop,
      List.drop_eq_nil_of_le (by omega), List.nil_append, hlen]
    congr 1
    omega
  ext1
  · rfl
  · rfl
  · rw [written_buf (d.written bytes), written_pos, htake, hdrop, written_buf]
    simp only [List.append_assoc]
  · rfl
  · simp only [written_pos, List.length_append, Nat.add_assoc]
  all_goals rfl

end Written

namespace Window

variable {d : Dictionary} {past : List UInt8}

theorem length_le_past (h : Window d past) : d.buf.length ≤ past.length := by
  rcases h.shape with ⟨hb, hp⟩ | ⟨-, hb, hp⟩
  · omega
  · omega

theorem back_eq (h : Window d past) {k : Nat} (hk : k < d.buf.length) :
    d.back k = (d.cell k : Int) := by
  have hle := h.length_le
  by_cases hkp : k < d.pos
  · rw [cell_lt hkp, back, if_neg (by omega)]
    omega
  · rw [cell_ge hkp, back, if_pos (by omega)]
    rcases h.shape with ⟨hb, -⟩ | ⟨-, hb, -⟩ <;> omega

/-- What is read at a valid distance. -/
theorem load (h : Window d past) {k : Nat} (hk : k < d.buf.length) :
    ∃ byte, past[k]? = some byte ∧ d.load (d.back k) = .ok byte := by
  have hlt : k < past.length := lt_of_lt_of_le hk h.length_le_past
  refine ⟨past[k], List.getElem?_eq_getElem hlt, ?_⟩
  rw [h.back_eq hk, Dictionary.load, if_neg (by omega), Int.toNat_natCast, h.cells k hk,
    List.getElem?_eq_getElem hlt]

theorem put (h : Window d past) (byte : UInt8) (hspace : d.pos < d.bufEnd) :
    Window (d.written [byte]) (byte :: past) := by
  have hpos := h.pos_le
  have hle := h.length_le
  have hlen : (d.written [byte]).buf.length = max d.buf.length (d.pos + 1) :=
    length_written [byte] hpos
  have hget : ∀ j, (d.written [byte]).buf[j]? =
      if j = d.pos then some byte else d.buf[j]? := by
    intro j
    rw [written_buf, List.append_assoc, List.getElem?_append, List.length_take,
      Nat.min_eq_left hpos, List.getElem?_take]
    split
    · rw [if_neg (by omega)]
    · rw [List.getElem?_append]
      rcases Nat.eq_or_lt_of_le (Nat.not_lt.mp ‹_›) with hj | hj
      · simp [← hj]
      · rw [if_neg (by simp; omega), if_neg (by omega), List.getElem?_drop]
        simp only [List.length_singleton]
        congr 1
        omega
  refine ⟨by rw [hlen, written_pos]; exact Nat.le_max_right _ _, ?_, ?_, ?_⟩
  · rw [hlen, written_bufEnd]
    omega
  · simp only [hlen, written_pos, written_mode, written_bufEnd, List.length_cons,
      List.length_nil]
    rcases h.shape with ⟨hb, hp⟩ | ⟨hm, hb, hp⟩
    · left
      omega
    · right
      refine ⟨hm, by omega, by omega⟩
  · intro k hk
    rw [hlen] at hk
    rw [hget]
    cases k with
    | zero =>
        rw [if_pos (by simp [cell])]
        rfl
    | succ k =>
        have hcell : (d.written [byte]).cell (k + 1) = d.cell k := by
          by_cases hkp : k < d.pos
          · rw [cell_lt (by rw [written_pos, List.length_singleton]; omega), cell_lt hkp,
              written_pos, List.length_singleton]
            omega
          · rw [cell_ge (by rw [written_pos, List.length_singleton]; omega), cell_ge hkp,
              written_bufEnd, written_pos, List.length_singleton]
            omega
        have hk' : k < d.buf.length := by
          rcases h.shape with ⟨hb, -⟩ | ⟨-, hb, -⟩ <;> omega
        have hne : d.cell k ≠ d.pos := by
          rw [cell]
          rcases h.shape with ⟨hb, -⟩ | ⟨-, hb, -⟩ <;> split <;> omega
        rw [hcell, if_neg hne, h.cells k hk']
        rfl

/-- Bytes copied from the input. -/
theorem copy (h : Window d past) (bytes : List UInt8) (hspace : d.pos + bytes.length ≤ d.bufEnd) :
    Window (d.written bytes) (bytes.reverse ++ past) := by
  induction bytes generalizing d past with
  | nil => rwa [written_nil]
  | cons byte bytes ih =>
      rw [List.length_cons] at hspace
      have hone := h.put byte (by omega)
      have hrest := ih hone (by rw [written_pos, written_bufEnd, List.length_singleton]; omega)
      rw [written_written _ h.pos_le] at hrest
      simpa using hrest

end Window

/-! ## What the operations do to the history -/

/-- The invariants the source states for `struct dictionary`, for the window
on `past`. Of `pos <= limit <= end` only the second half always holds: an
uncompressed chunk moves `pos` past the limit that the last LZMA chunk left. -/
structure Holds (d : Dictionary) (past : List UInt8) : Prop where
  window : Window d past
  full_eq : d.full = d.buf.length
  start_le : d.start ≤ d.pos
  limit_le : d.limit ≤ d.bufEnd
  size_pos : 0 < d.size
  ring : d.mode = .prealloc → d.bufEnd = d.size

@[simp] theorem fill_pos (d : Dictionary) : d.fill.pos = d.pos := rfl

@[simp] theorem fill_mode (d : Dictionary) : d.fill.mode = d.mode := rfl

@[simp] theorem fill_start (d : Dictionary) : d.fill.start = d.start := rfl

@[simp] theorem fill_limit (d : Dictionary) : d.fill.limit = d.limit := rfl

@[simp] theorem fill_bufEnd (d : Dictionary) : d.fill.bufEnd = d.bufEnd := rfl

@[simp] theorem fill_size (d : Dictionary) : d.fill.size = d.size := rfl

@[simp] theorem fill_base (d : Dictionary) : d.fill.base = d.base := rfl

@[simp] theorem fill_buf (d : Dictionary) : d.fill.buf = d.buf := rfl

theorem fill_full (d : Dictionary) : d.fill.full = max d.full d.pos := by
  simp only [fill]
  split <;> omega

/-- Two writes in a row are one. -/
theorem fill_written_fill {d : Dictionary} (h : d.pos ≤ d.buf.length)
    (bytes bytes' : List UInt8) :
    ((d.written bytes).fill.written bytes').fill = (d.written (bytes ++ bytes')).fill := by
  have hw := written_written bytes h bytes'
  have hbuf : ((d.written bytes).written bytes').buf = (d.written (bytes ++ bytes')).buf := by
    rw [hw]
  have hpos : ((d.written bytes).written bytes').pos = (d.written (bytes ++ bytes')).pos := by
    rw [hw]
  ext1
  · rfl
  · rfl
  · exact hbuf
  · rfl
  · exact hpos
  · rw [fill_full, written_full, fill_full, written_full, fill_full, written_full]
    simp only [written_pos, fill_pos, List.length_append]
    omega
  all_goals rfl

theorem Window.fill {d : Dictionary} {past : List UInt8} (h : Window d past) :
    Window d.fill past :=
  ⟨h.pos_le, h.length_le, h.shape, h.cells⟩

theorem store_ok {d : Dictionary} {past bytes : List UInt8} (h : Window d past)
    (hspace : d.pos + bytes.length ≤ d.bufEnd) : d.store bytes = .ok (d.written bytes) :=
  if_pos ⟨hspace, h.pos_le⟩

/-- The loop of `dict_repeat` writes what is at the distance. -/
theorem repeatFrom_ok {d : Dictionary} {past : List UInt8} {n dist : Nat} (h : Window d past)
    (hdist : dist < d.buf.length) (hspace : d.pos + n ≤ d.bufEnd) :
    ∃ bytes : List UInt8, bytes.length = n ∧ Lz77.copies dist n past = bytes.reverse ++ past
      ∧ repeatFrom n d (d.back dist) = .ok (d.written bytes) := by
  induction n generalizing d past with
  | zero => exact ⟨[], rfl, rfl, by rw [repeatFrom, written_nil]⟩
  | succ n ih =>
      obtain ⟨byte, hbyte, hload⟩ := h.load hdist
      have hput := h.put byte (by omega)
      have hlen := length_written [byte] h.pos_le
      rw [List.length_singleton] at hlen
      have hback : (if d.back dist + 1 = d.bufEnd then 0 else d.back dist + 1)
          = (d.written [byte]).back dist := by
        have hle := h.length_le
        rw [h.back_eq hdist, hput.back_eq (by omega)]
        by_cases hdp : dist < d.pos
        · rw [cell_lt hdp, cell_lt (by rw [written_pos, List.length_singleton]; omega),
            if_neg (by omega), written_pos, List.length_singleton]
          omega
        · rw [cell_ge hdp]
          rcases Nat.eq_or_lt_of_le (Nat.not_lt.mp hdp) with heq | hlt
          · rw [cell_lt (by rw [written_pos, List.length_singleton]; omega), if_pos (by omega),
              written_pos, List.length_singleton]
            omega
          · rw [cell_ge (by rw [written_pos, List.length_singleton]; omega), if_neg (by omega),
              written_pos, written_bufEnd, List.length_singleton]
            omega
      obtain ⟨bytes, rfl, hcopies, hrun⟩ := ih hput (by omega)
        (by rw [written_pos, written_bufEnd, List.length_singleton]; omega)
      refine ⟨byte :: bytes, rfl, ?_, ?_⟩
      · rw [Lz77.copies_succ hbyte, hcopies, List.reverse_cons,
          List.append_assoc, List.singleton_append]
      · rw [repeatFrom, hload, ok_bind,
          store_ok h (by rw [List.length_singleton]; omega), ok_bind, written_bufEnd, hback, hrun,
          written_written _ h.pos_le, List.singleton_append]

namespace Holds

variable {d : Dictionary} {past : List UInt8}

theorem full_pos_or_nil (h : Holds d past) : 0 < d.full ∨ past = [] := by
  have hfull := h.full_eq
  rcases h.window.shape with ⟨hb, hp⟩ | ⟨hm, hb, hp⟩
  · rcases Nat.eq_zero_or_pos d.pos with h0 | h0
    · exact Or.inr (List.eq_nil_of_length_eq_zero (by omega))
    · exact Or.inl (by omega)
  · have := h.ring hm
    have := h.size_pos
    exact Or.inl (by omega)

/-- `dict_get`: 0 stands in for what was before the first byte. -/
theorem get (h : Holds d past) {dist : Nat} (hdist : dist < d.full ∨ past = []) :
    d.get dist = .ok (past[dist]?.getD 0) := by
  rw [Dictionary.get]
  rcases h.full_pos_or_nil with hpos | rfl
  · have hlt : dist < d.full := by
      rcases hdist with hlt | rfl
      · exact hlt
      · have := h.window.length_le_past
        have := h.full_eq
        rw [List.length_nil] at *
        omega
    obtain ⟨byte, hbyte, hload⟩ := h.window.load (h.full_eq ▸ hlt)
    rw [if_pos hpos, hload, hbyte, Option.getD_some]
  · have := h.window.length_le_past
    have := h.full_eq
    rw [List.length_nil] at *
    rw [if_neg (by omega)]
    rfl

/-- Writing forward keeps the invariants. -/
theorem advance (h : Holds d past) {bytes past' : List UInt8}
    (hw : Window (d.written bytes) past') : Holds (d.written bytes).fill past' where
  window := hw.fill
  full_eq := by
    rw [fill_full, fill_buf, length_written _ h.window.pos_le, written_full, written_pos,
      h.full_eq]
  start_le := by
    have := h.start_le
    simp only [fill_start, written_start, fill_pos, written_pos]
    omega
  limit_le := h.limit_le
  size_pos := h.size_pos
  ring := h.ring

/-- `dict_put`. -/
theorem put (h : Holds d past) (hspace : d.pos < d.limit) (byte : UInt8) :
    d.put byte = .ok (d.written [byte]).fill
      ∧ Holds (d.written [byte]).fill (byte :: past) := by
  have hle := h.limit_le
  refine ⟨?_, h.advance (h.window.put byte (by omega))⟩
  rw [Dictionary.put, store_ok h.window (by rw [List.length_singleton]; omega), ok_bind]

/-- `dict_repeat` of a valid distance. -/
theorem «repeat» (h : Holds d past) {len dist : Nat} (hspace : d.pos < d.limit)
    (hlen : 0 < len) (hfull : dist < d.full) (hsize : dist < d.size) :
    ∃ bytes : List UInt8, bytes.length = min (d.limit - d.pos) len
      ∧ Lz77.copies dist bytes.length past = bytes.reverse ++ past
      ∧ d.repeat len dist = .ok (some ((d.written bytes).fill, len - bytes.length))
      ∧ Holds (d.written bytes).fill (bytes.reverse ++ past) := by
  have hle := h.limit_le
  obtain ⟨bytes, hbytes, hcopies, hrun⟩ := repeatFrom_ok (n := min (d.limit - d.pos) len)
    h.window (h.full_eq ▸ hfull) (by omega)
  refine ⟨bytes, hbytes, hbytes ▸ hcopies, ?_, ?_⟩
  · simp only [Dictionary.repeat]
    rw [if_neg (by omega), if_neg (by omega), hrun, ok_bind, hbytes]
  · exact h.advance (h.window.copy bytes (by omega))

/-- `dict_limit`. -/
theorem setLimit (h : Holds d past) (outMax : Nat) : Holds (d.setLimit outMax) past where
  window := ⟨h.window.pos_le, h.window.length_le, h.window.shape, h.window.cells⟩
  full_eq := h.full_eq
  start_le := h.start_le
  limit_le := by
    have := h.window.pos_le
    have := h.window.length_le
    simp only [Dictionary.setLimit]
    split <;> omega
  size_pos := h.size_pos
  ring := h.ring

/-- Wrapping a full ring moves nothing on it. -/
theorem wrap (h : Holds d past) : Holds d.wrap.settle past := by
  by_cases hw : d.mode = .prealloc ∧ d.pos = d.bufEnd
  · have hpos : d.wrap.settle.pos = 0 := if_pos hw
    have hbuf : d.buf.length = d.bufEnd := le_antisymm h.window.length_le
      (hw.2 ▸ h.window.pos_le)
    refine ⟨⟨?_, h.window.length_le, Or.inr ⟨hw.1, hbuf, ?_⟩, fun k hk => ?_⟩, h.full_eq,
      Nat.le_refl _, h.limit_le, h.size_pos, h.ring⟩
    · exact hpos ▸ Nat.zero_le _
    · exact hbuf ▸ h.window.length_le_past
    · have hcell : d.wrap.settle.cell k = d.cell k := by
        have hk' : k < d.buf.length := hk
        rw [cell_ge (by omega), cell_lt (by omega), hpos, hw.2]
        rfl
      rw [hcell]
      exact h.window.cells k hk
  · have hd : d.wrap = d := by
      rw [Dictionary.wrap, if_neg hw]
    rw [hd]
    exact ⟨⟨h.window.pos_le, h.window.length_le, h.window.shape, h.window.cells⟩, h.full_eq,
      Nat.le_refl _, h.limit_le, h.size_pos, h.ring⟩

end Holds

/-! ## The dictionary between two chunks -/

/-- Nothing waits to be written out. In multi-call mode the ring has been
wrapped; in single-call mode the output is the dictionary from `base` on. -/
structure Rests (d : Dictionary) (b : XzBuf) : Prop where
  start_eq : d.start = d.pos
  ring : d.mode = .prealloc → d.pos < d.bufEnd
  base : d.mode = .single → d.base + d.pos = b.out.length ∧ d.base + d.bufEnd = b.outSize
  out : d.mode = .single → b.out.drop d.base = d.buf

/-- `d` and `d'` are set up alike, and `d'` is as full. -/
structure Keeps (d d' : Dictionary) : Prop where
  full : d.full ≤ d'.full
  mode : d'.mode = d.mode
  bufEnd : d'.bufEnd = d.bufEnd
  size : d'.size = d.size
  sizeMax : d'.sizeMax = d.sizeMax

theorem Keeps.trans {d d' d'' : Dictionary} (h : Keeps d d') (h' : Keeps d' d'') :
    Keeps d d'' :=
  ⟨h.full.trans h'.full, h'.mode.trans h.mode, h'.bufEnd.trans h.bufEnd, h'.size.trans h.size,
    h'.sizeMax.trans h.sizeMax⟩

/-- `dict_reset`: an empty window, whatever was there before. -/
theorem reset_holds {d : Dictionary} {b : XzBuf} (hsize : 0 < d.size)
    (hring : d.mode = .prealloc → d.bufEnd = d.size) (hb : b.Valid) :
    Holds (d.reset b) [] ∧ Rests (d.reset b) b := by
  have hprealloc : d.mode = .prealloc → (d.reset b).bufEnd = d.size := fun hm => by
    rw [← hring hm]
    exact if_neg (by rw [hm]; decide)
  have hsingle : d.mode = .single → (d.reset b).base = b.out.length
      ∧ (d.reset b).bufEnd = b.outSize - b.out.length := fun hm => ⟨if_pos hm, if_pos hm⟩
  refine ⟨⟨⟨Nat.le_refl _, Nat.zero_le _, Or.inl ⟨rfl, rfl⟩, fun k hk => ?_⟩, rfl,
    Nat.le_refl _, Nat.zero_le _, hsize, hprealloc⟩, rfl, fun hm => ?_, fun hm => ?_,
    fun hm => ?_⟩
  · exact absurd hk (Nat.not_lt_zero k)
  · exact (hprealloc hm).symm ▸ hsize
  · obtain ⟨hbase, hend⟩ := hsingle hm
    rw [hbase, hend]
    exact ⟨rfl, Nat.add_sub_cancel' hb.fits⟩
  · rw [(hsingle hm).1]
    exact List.drop_length

/-- Bytes that went to the dictionary and to the output. -/
theorem Rests.settle {d : Dictionary} {b : XzBuf} {bytes : List UInt8} (n : Nat) (h : Rests d b)
    (hw : d.buf.length = d.pos ∨ d.mode = .prealloc)
    (hle : d.pos + bytes.length ≤ d.bufEnd) (hend : 0 < d.bufEnd ∨ d.mode = .single) :
    Rests (d.written bytes).fill.wrap.settle (b.moved n bytes) := by
  cases hm : d.mode with
  | single =>
      have hwrap : (d.written bytes).fill.wrap = (d.written bytes).fill := by
        rw [Dictionary.wrap, if_neg fun hc => absurd (hm.symm.trans hc.1) (by decide)]
      have hfull : d.buf.length = d.pos := by
        rcases hw with hw | hw
        · exact hw
        · exact absurd (hm.symm.trans hw) (by decide)
      obtain ⟨hb, he⟩ := h.base hm
      rw [hwrap]
      refine ⟨rfl, fun hc => absurd (hm.symm.trans hc) (by decide), fun _ => ?_, fun _ => ?_⟩
      · refine ⟨?_, he⟩
        rw [XzBuf.moved, List.length_append, ← hb]
        exact (Nat.add_assoc _ _ _).symm
      · change (b.out ++ bytes).drop d.base = (d.written bytes).buf
        rw [written_buf, List.drop_append_of_le_length (by omega), h.out hm, ← hfull,
          List.take_length, List.drop_eq_nil_of_le (by omega), List.append_nil]
  | prealloc =>
      refine ⟨rfl, fun _ => ?_, fun hc => absurd (hm.symm.trans hc) (by decide),
        fun hc => absurd (hm.symm.trans hc) (by decide)⟩
      change (d.written bytes).fill.wrap.pos < d.bufEnd
      have hpos' : (d.written bytes).fill.wrap.pos
          = if d.pos + bytes.length = d.bufEnd then 0 else d.pos + bytes.length := by
        simp only [Dictionary.wrap, fill_mode, written_mode, hm, true_and, fill_pos, written_pos,
          fill_bufEnd, written_bufEnd]
      rcases hend with hend | hend
      · rw [hpos']
        split <;> omega
      · exact absurd (hm.symm.trans hend) (by decide)

/-- `dict_flush` writes out what was written since the dictionary rested. -/
theorem Rests.flush {d : Dictionary} {b : XzBuf} {bytes : List UInt8} (h : Rests d b)
    (hpos : d.pos ≤ d.buf.length) :
    (d.written bytes).fill.flush b
      = (bytes.length, (d.written bytes).fill.wrap.settle, b.moved 0 bytes) := by
  have hlen : (d.buf.take d.pos).length = d.pos := by
    rw [List.length_take, Nat.min_eq_left hpos]
  have hsize : (d.written bytes).pos - (d.written bytes).start = bytes.length := by
    rw [written_pos, written_start, h.start_eq, Nat.add_sub_cancel_left]
  have hbytes : ((d.written bytes).buf.drop d.start).take bytes.length = bytes := by
    rw [h.start_eq, written_buf, List.append_assoc, List.drop_left' hlen, List.take_left' rfl]
  rw [Dictionary.flush]
  simp only [fill_pos, fill_start, fill_buf, hsize]
  rw [written_start, hbytes]
  rfl

/-- Wrapping keeps the position modulo what divides the size of the ring. -/
theorem wrap_mod {d : Dictionary} {k : Nat} (hring : d.mode = .prealloc → d.bufEnd = d.size)
    (hsize : d.size % k = 0) : d.wrap.pos % k = d.pos % k := by
  rw [wrap]
  simp only
  split
  · rename_i hw
    rw [hw.2, hring hw.1, hsize, Nat.zero_mod]
  · rfl

/-- What a step writes moves the position as it moves the history. -/
theorem written_mod {d : Dictionary} {past : List UInt8} {k : Nat} (bytes : List UInt8)
    (h : d.pos % k = past.length % k) :
    (d.written bytes).pos % k = (bytes.reverse ++ past).length % k := by
  rw [written_pos, List.length_append, List.length_reverse, Nat.add_comm bytes.length,
    Nat.add_mod d.pos, h, ← Nat.add_mod]

/-- One round copies at least a byte, as long as there is room. -/
theorem uncompressedRound_ok {d : Dictionary} {b : XzBuf} {past : List UInt8} {left : Nat}
    (h : Holds d past) (hr : Rests d b) (hroom : 0 < b.room left) :
    ∃ n bytes d', 0 < n ∧ n ≤ b.room left ∧ bytes = (b.input.drop b.inPos).take n
      ∧ bytes.length = n
      ∧ uncompressedRound (d, b, left) = .ok (.next (d', b.moved n bytes, left - n))
      ∧ Holds d' (bytes.reverse ++ past) ∧ Rests d' (b.moved n bytes) ∧ Keeps d d'
      ∧ ∀ k, d.size % k = 0 → d.pos % k = past.length % k →
        d'.pos % k = (bytes.reverse ++ past).length % k := by
  simp only [XzBuf.room, Nat.lt_min] at hroom
  obtain ⟨hleft, hin, hout⟩ := hroom
  have hend : 0 < d.bufEnd - d.pos := by
    cases hm : d.mode with
    | single =>
        have := hr.base hm
        omega
    | prealloc =>
        have := hr.ring hm
        omega
  obtain ⟨n, hn⟩ : ∃ n, n = min (b.room left) (d.bufEnd - d.pos) := ⟨_, rfl⟩
  have hlen : ((b.input.drop b.inPos).take n).length = n := by
    rw [List.length_take, List.length_drop]
    simp only [XzBuf.room] at hn
    omega
  have hle : d.pos + ((b.input.drop b.inPos).take n).length ≤ d.bufEnd := by omega
  refine ⟨n, _, (d.written ((b.input.drop b.inPos).take n)).fill.wrap.settle, ?_, by omega, rfl,
    hlen, ?_, (h.advance (h.window.copy _ hle)).wrap, ?_, ⟨?_, rfl, rfl, rfl, rfl⟩,
    fun k hsize hmod => ?_⟩
  · simp only [XzBuf.room] at hn
    omega
  · have hcopy : (if (if min (b.input.length - b.inPos) (b.outSize - b.out.length)
          > d.bufEnd - d.pos then d.bufEnd - d.pos
          else min (b.input.length - b.inPos) (b.outSize - b.out.length)) > left then left
        else if min (b.input.length - b.inPos) (b.outSize - b.out.length) > d.bufEnd - d.pos
          then d.bufEnd - d.pos
          else min (b.input.length - b.inPos) (b.outSize - b.out.length)) = n := by
      simp only [XzBuf.room] at hn
      split <;> split at * <;> omega
    simp only [uncompressedRound]
    rw [if_pos ⟨hleft, by omega, by omega⟩, hcopy, store_ok h.window hle, ok_bind]
    rfl
  · refine hr.settle n ?_ hle ?_
    · rcases h.window.shape with ⟨hb, -⟩ | ⟨hm, -, -⟩
      · exact Or.inl hb
      · exact Or.inr hm
    · exact Or.inl (by omega)
  · change d.full ≤ (d.written _).fill.full
    rw [fill_full]
    exact Nat.le_max_left _ _
  · have hwrap := wrap_mod (d := (d.written ((b.input.drop b.inPos).take n)).fill) h.ring hsize
    exact hwrap.trans (written_mod _ hmod)

/-- `dict_uncompressed` copies what there is, up to `left` bytes and to the end
of the output. -/
theorem Holds.uncompressed {d : Dictionary} {b : XzBuf} {past : List UInt8} (h : Holds d past)
    (hr : Rests d b) (left : Nat) :
    ∃ bytes d', bytes = (b.input.drop b.inPos).take (b.room left)
      ∧ bytes.length = b.room left
      ∧ d.uncompressed b left = .ok (d', b.moved bytes.length bytes, left - bytes.length)
      ∧ Holds d' (bytes.reverse ++ past) ∧ Rests d' (b.moved bytes.length bytes) ∧ Keeps d d'
      ∧ ∀ k, d.size % k = 0 → d.pos % k = past.length % k →
        d'.pos % k = (bytes.reverse ++ past).length % k := by
  have hrun : ∀ k d b left past, Holds d past → Rests d b → left < k →
      ∃ bytes d', bytes = (b.input.drop b.inPos).take (b.room left)
        ∧ bytes.length = b.room left
        ∧ loopFuel uncompressedRound k (d, b, left)
          = .ok (d', b.moved bytes.length bytes, left - bytes.length)
        ∧ Holds d' (bytes.reverse ++ past) ∧ Rests d' (b.moved bytes.length bytes)
        ∧ Keeps d d' ∧ ∀ k, d.size % k = 0 → d.pos % k = past.length % k →
          d'.pos % k = (bytes.reverse ++ past).length % k := by
    intro k
    induction k with
    | zero => intro d b left past _ _ hk; omega
    | succ k ih =>
        intro d b left past h hr hk
        rcases Nat.eq_zero_or_pos (b.room left) with hroom | hroom
        · refine ⟨[], d, by rw [hroom, List.take_zero], hroom.symm, ?_, h, ?_, ?_, fun _ _ hm => hm⟩
          · apply loopFuel_exit
            simp only [XzBuf.room] at hroom
            simp only [uncompressedRound]
            rw [if_neg (by omega)]
            simp
          · simpa using hr
          · exact ⟨Nat.le_refl _, rfl, rfl, rfl, rfl⟩
        · obtain ⟨n, bytes, d', hn, hle, hbytes, hlen, hround, h', hr', hk', hmod'⟩ :=
            uncompressedRound_ok h hr hroom
          have hroom' : (b.moved n bytes).room (left - n) = b.room left - n := by
            simp only [XzBuf.room, XzBuf.moved, List.length_append]
            omega
          obtain ⟨bytes', d'', hbytes', hlen', hrest, h'', hr'', hk'', hmod''⟩ :=
            ih d' (b.moved n bytes) (left - n) _ h' hr' (by have := b.room_le left; omega)
          refine ⟨bytes ++ bytes', d'', ?_, ?_, ?_, ?_, ?_, hk'.trans hk'', fun k hsize hm => ?_⟩
          · rw [hbytes, hbytes', hroom']
            have hsum : b.room left = n + (b.room left - n) := by omega
            conv_rhs => rw [hsum, List.take_add, List.drop_drop]
            rfl
          · rw [List.length_append, hlen, hlen', hroom']
            omega
          · rw [loopFuel_next hround, hrest, XzBuf.moved_moved, List.length_append, hlen,
              Nat.sub_sub]
          · rw [List.reverse_append, List.append_assoc]
            exact h''
          · rw [XzBuf.moved_moved] at hr''
            rw [List.length_append, hlen]
            exact hr''
          · rw [List.reverse_append, List.append_assoc]
            exact hmod'' k (hk'.size.symm ▸ hsize) (hmod' k hsize hm)
  exact hrun _ d b left past h hr (Nat.lt_succ_self _)

end Dictionary

end Ccr2004
