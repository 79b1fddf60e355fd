import Ccr2004.Frames
import Ccr2004.Npk

/-!
# The package grammar

A package is a magic, the length of its payload, the payload and whatever
follows. The payload is a walk of containers, of which the first with the
content id counts, and what that one inflates to is a walk of records.
Containers and records are both frames. None of this mentions the parser.
-/

namespace Ccr2004

/-! ## Containers -/

/-- One container, with a length its header can hold. -/
@[ext] structure NpkContainer where
  id : UInt16
  payload : List UInt8
  payload_lt : payload.length < 2 ^ 32

namespace NpkContainer

def bytes (c : NpkContainer) : List UInt8 :=
  leBytes 2 c.id.toNat ++ (leBytes 4 c.payload.length ++ c.payload)

@[simp] theorem length_bytes (c : NpkContainer) :
    c.bytes.length = 6 + c.payload.length := by
  simp only [bytes, List.length_append, length_leBytes]
  omega

/-- The container a list starts with. -/
def next (bs : List UInt8) : Option NpkContainer :=
  if h : 6 + leNat (slice bs 2 4) ≤ bs.length then
    some
      { id := UInt16.ofNat (leNat (slice bs 0 2))
        payload := slice bs 6 (leNat (slice bs 2 4))
        payload_lt := by rw [length_slice h]; exact leNat_slice_lt bs 2 4 }
  else none

theorem next_bytes_append (c : NpkContainer) (rest : List UInt8) :
    next (c.bytes ++ rest) = some c := by
  have hid : slice (c.bytes ++ rest) 0 2 = leBytes 2 c.id.toNat := by
    have heq : c.bytes ++ rest =
        [] ++ (leBytes 2 c.id.toNat ++ (leBytes 4 c.payload.length ++ c.payload ++ rest)) := by
      simp [bytes]
    rw [heq]
    exact slice_mid _ rfl (length_leBytes _ _)
  have hlen : slice (c.bytes ++ rest) 2 4 = leBytes 4 c.payload.length := by
    have heq : c.bytes ++ rest =
        leBytes 2 c.id.toNat ++ (leBytes 4 c.payload.length ++ (c.payload ++ rest)) := by
      simp [bytes]
    rw [heq]
    exact slice_mid _ (length_leBytes _ _) (length_leBytes _ _)
  have hpayload : slice (c.bytes ++ rest) 6 c.payload.length = c.payload := by
    have heq : c.bytes ++ rest =
        (leBytes 2 c.id.toNat ++ leBytes 4 c.payload.length) ++ (c.payload ++ rest) := by
      simp [bytes]
    rw [heq]
    exact slice_mid _ (by simp) rfl
  have hfield : leNat (slice (c.bytes ++ rest) 2 4) = c.payload.length := by
    rw [hlen]
    exact leNat_leBytes_of_lt c.payload_lt
  have hfits : 6 + leNat (slice (c.bytes ++ rest) 2 4) ≤ (c.bytes ++ rest).length := by
    rw [hfield, List.length_append, length_bytes]
    omega
  rw [next, dif_pos hfits, Option.some.injEq]
  ext1
  · dsimp only
    rw [hid, leNat_leBytes_of_lt c.id.toNat_lt, UInt16.ofNat_toNat]
  · dsimp only
    rw [hfield, hpayload]

theorem bytes_of_next {bs : List UInt8} {c : NpkContainer} (h : next bs = some c) :
    c.bytes = slice bs 0 (6 + leNat (slice bs 2 4)) := by
  rw [next] at h
  split at h
  · rename_i hfits
    obtain rfl := Option.some.inj h
    have hid : (UInt16.ofNat (leNat (slice bs 0 2))).toNat = leNat (slice bs 0 2) :=
      UInt16.toNat_ofNat_of_lt' (leNat_slice_lt bs 0 2)
    rw [bytes]
    dsimp only
    rw [hid, length_slice hfits, leBytes_slice (by omega), leBytes_slice (by omega),
      slice_add bs 0 6, slice_add bs 0 2 4, List.append_assoc]
  · cases h

/-- The container is the one with the content. -/
def IsContent (c : NpkContainer) : Prop := c.id = npkZlibCompressedData

instance : DecidablePred IsContent := fun c =>
  inferInstanceAs (Decidable (c.id = npkZlibCompressedData))

/-- Containers, read from the front. -/
def framing : Framing UInt8 NpkContainer where
  bytes := bytes
  next := next
  bytes_ne c h := by
    have hlen := congrArg List.length h
    rw [length_bytes, List.length_nil] at hlen
    omega
  next_eq_some := by
    intro bs c
    constructor
    · intro h
      rw [bytes_of_next h]
      exact List.take_prefix _ _
    · rintro ⟨rest, rfl⟩
      exact next_bytes_append c rest

/-- The header decides whether there is a container. -/
theorem next_of_fits {bs : List UInt8} (h : 6 + leNat (slice bs 2 4) ≤ bs.length) :
    ∃ c, framing.next bs = some c ∧ c.id = UInt16.ofNat (leNat (slice bs 0 2))
      ∧ c.payload = slice bs 6 (leNat (slice bs 2 4))
      ∧ (framing.bytes c).length = 6 + leNat (slice bs 2 4) := by
  refine ⟨_, dif_pos h, rfl, rfl, ?_⟩
  rw [framing, length_bytes, length_slice h]

theorem next_of_not_fits {bs : List UInt8}
    (h : ¬ 6 + leNat (slice bs 2 4) ≤ bs.length) : framing.next bs = none :=
  dif_neg h

end NpkContainer

/-! ## Records -/

/-- One record: a 30-byte header, of which 22 bytes are not looked at, a name
and a payload. -/
@[ext] structure NpkRecord where
  mode : UInt16
  filler : List UInt8
  name : List UInt8
  payload : List UInt8
  filler_length : filler.length = 22
  name_lt : name.length < 2 ^ 16
  payload_lt : payload.length < 2 ^ 32

namespace NpkRecord

def bytes (r : NpkRecord) : List UInt8 :=
  leBytes 2 r.mode.toNat ++ (r.filler ++ (leBytes 4 r.payload.length
    ++ (leBytes 2 r.name.length ++ (r.name ++ r.payload))))

@[simp] theorem length_bytes (r : NpkRecord) :
    r.bytes.length = 30 + r.name.length + r.payload.length := by
  simp only [bytes, List.length_append, length_leBytes, r.filler_length]
  omega

/-- The record a list starts with. -/
def next (bs : List UInt8) : Option NpkRecord :=
  if h : 30 + leNat (slice bs 28 2) + leNat (slice bs 24 4) ≤ bs.length then
    some
      { mode := UInt16.ofNat (leNat (slice bs 0 2))
        filler := slice bs 2 22
        name := slice bs 30 (leNat (slice bs 28 2))
        payload := slice bs (30 + leNat (slice bs 28 2)) (leNat (slice bs 24 4))
        filler_length := length_slice (by omega)
        name_lt := by rw [length_slice (by omega)]; exact leNat_slice_lt bs 28 2
        payload_lt := by rw [length_slice h]; exact leNat_slice_lt bs 24 4 }
  else none

theorem next_bytes_append (r : NpkRecord) (rest : List UInt8) :
    next (r.bytes ++ rest) = some r := by
  obtain ⟨mode, filler, name, payload, hfiller, hname, hpayload⟩ := r
  set r : NpkRecord := ⟨mode, filler, name, payload, hfiller, hname, hpayload⟩ with hr
  set bs := r.bytes ++ rest with hbs
  have h₀ : bs = [] ++ (leBytes 2 mode.toNat ++ (filler ++ (leBytes 4 payload.length
      ++ (leBytes 2 name.length ++ (name ++ (payload ++ rest)))))) := by
    simp [hbs, hr, bytes]
  have h₂ : bs = leBytes 2 mode.toNat ++ (filler ++ (leBytes 4 payload.length
      ++ (leBytes 2 name.length ++ (name ++ (payload ++ rest))))) := h₀
  have h₂₄ : bs = (leBytes 2 mode.toNat ++ filler) ++ (leBytes 4 payload.length
      ++ (leBytes 2 name.length ++ (name ++ (payload ++ rest)))) := by
    rw [h₂, List.append_assoc]
  have h₂₈ : bs = (leBytes 2 mode.toNat ++ filler ++ leBytes 4 payload.length)
      ++ (leBytes 2 name.length ++ (name ++ (payload ++ rest))) := by
    rw [h₂₄, List.append_assoc _ (leBytes 4 payload.length)]
  have h₃₀ : bs = (leBytes 2 mode.toNat ++ filler ++ leBytes 4 payload.length
      ++ leBytes 2 name.length) ++ (name ++ (payload ++ rest)) := by
    rw [h₂₈, List.append_assoc _ (leBytes 2 name.length)]
  have hend : bs = (leBytes 2 mode.toNat ++ filler ++ leBytes 4 payload.length
      ++ leBytes 2 name.length ++ name) ++ (payload ++ rest) := by
    rw [h₃₀, List.append_assoc _ name]
  have hmode : slice bs 0 2 = leBytes 2 mode.toNat := by
    rw [h₀]
    exact slice_mid _ rfl (length_leBytes _ _)
  have hfill : slice bs 2 22 = filler := by
    rw [h₂]
    exact slice_mid _ (length_leBytes _ _) hfiller
  have hpl : leNat (slice bs 24 4) = payload.length := by
    rw [h₂₄, slice_mid _ (by simp [hfiller]) (length_leBytes _ _)]
    exact leNat_leBytes_of_lt hpayload
  have hnl : leNat (slice bs 28 2) = name.length := by
    rw [h₂₈, slice_mid _ (by simp [hfiller]) (length_leBytes _ _)]
    exact leNat_leBytes_of_lt hname
  have hnm : slice bs 30 name.length = name := by
    rw [h₃₀]
    exact slice_mid _ (by simp [hfiller]) rfl
  have hpay : slice bs (30 + name.length) payload.length = payload := by
    rw [hend]
    refine slice_mid _ ?_ rfl
    simp only [List.length_append, length_leBytes, hfiller]
  have hfits : 30 + leNat (slice bs 28 2) + leNat (slice bs 24 4) ≤ bs.length := by
    have hlen : r.bytes.length = 30 + name.length + payload.length := length_bytes r
    rw [hnl, hpl, hbs, List.length_append, hlen]
    exact Nat.le_add_right _ _
  rw [next, dif_pos hfits, Option.some.injEq]
  ext1
  · dsimp only
    rw [hmode, leNat_leBytes_of_lt mode.toNat_lt, UInt16.ofNat_toNat]
  · exact hfill
  · dsimp only
    rw [hnl, hnm]
  · dsimp only
    rw [hnl, hpl, hpay]

theorem bytes_of_next {bs : List UInt8} {r : NpkRecord} (h : next bs = some r) :
    r.bytes = slice bs 0 (30 + leNat (slice bs 28 2) + leNat (slice bs 24 4)) := by
  rw [next] at h
  split at h
  · rename_i hfits
    obtain rfl := Option.some.inj h
    have hmode : (UInt16.ofNat (leNat (slice bs 0 2))).toNat = leNat (slice bs 0 2) :=
      UInt16.toNat_ofNat_of_lt' (leNat_slice_lt bs 0 2)
    rw [bytes]
    dsimp only
    rw [hmode, length_slice hfits, length_slice (by omega), leBytes_slice (by omega),
      leBytes_slice (by omega), leBytes_slice (by omega),
      slice_add bs 0 (30 + leNat (slice bs 28 2)), slice_add bs 0 30, slice_add bs 0 28 2,
      slice_add bs 0 24 4, slice_add bs 0 2 22]
    simp only [List.append_assoc, Nat.zero_add]
  · cases h

/-- Records, read from the front. -/
def framing : Framing UInt8 NpkRecord where
  bytes := bytes
  next := next
  bytes_ne r h := by
    have hlen := congrArg List.length h
    rw [length_bytes, List.length_nil] at hlen
    omega
  next_eq_some := by
    intro bs r
    constructor
    · intro h
      rw [bytes_of_next h]
      exact List.take_prefix _ _
    · rintro ⟨rest, rfl⟩
      exact next_bytes_append r rest

/-- The header decides whether there is a record. -/
theorem next_of_fits {bs : List UInt8}
    (h : 30 + leNat (slice bs 28 2) + leNat (slice bs 24 4) ≤ bs.length) :
    ∃ r, framing.next bs = some r ∧ r.mode = UInt16.ofNat (leNat (slice bs 0 2))
      ∧ r.name = slice bs 30 (leNat (slice bs 28 2))
      ∧ r.payload = slice bs (30 + leNat (slice bs 28 2)) (leNat (slice bs 24 4))
      ∧ (framing.bytes r).length =
          30 + leNat (slice bs 28 2) + leNat (slice bs 24 4) := by
  refine ⟨_, dif_pos h, rfl, rfl, rfl, ?_⟩
  rw [framing, length_bytes, length_slice h, length_slice (by omega)]

theorem next_of_not_fits {bs : List UInt8}
    (h : ¬ 30 + leNat (slice bs 28 2) + leNat (slice bs 24 4) ≤ bs.length) :
    framing.next bs = none :=
  dif_neg h

end NpkRecord

/-! ## Packages -/

/-- The payload of a package; bytes after it are not looked at. -/
def PackagePayload (buffer payload : List UInt8) : Prop :=
  ∃ trailing, payload.length < 2 ^ 32
    ∧ buffer = leBytes 4 npkMagicBytes ++ (leBytes 4 payload.length ++ (payload ++ trailing))

/-- The payload of the content container: the first one with its id. -/
def ContentPayload (buffer x : List UInt8) : Prop :=
  ∃ payload c, PackagePayload buffer payload
    ∧ NpkContainer.framing.First NpkContainer.IsContent payload c ∧ c.payload = x

/-- `buffer` is a package of the records, with `content` their bytes before
compression. -/
def NpkGrammar (decode : List UInt8 → List UInt8 × Bool) (buffer content : List UInt8)
    (records : List NpkRecord) : Prop :=
  ∃ x, ContentPayload buffer x ∧ decode x = (content, true)
    ∧ NpkRecord.framing.encode records = content

theorem npkMagicBytes_lt : npkMagicBytes < 256 ^ 4 := by
  rw [npkMagicBytes]
  norm_num

/-- The header decides whether there is a payload. -/
theorem packagePayload_iff {buffer payload : List UInt8} (h : 8 ≤ buffer.length) :
    PackagePayload buffer payload ↔
      leNat (slice buffer 0 4) = npkMagicBytes
        ∧ 8 + leNat (slice buffer 4 4) ≤ buffer.length
        ∧ payload = slice buffer 8 (leNat (slice buffer 4 4)) := by
  constructor
  · rintro ⟨trailing, hlt, rfl⟩
    have hmagic : slice (leBytes 4 npkMagicBytes
        ++ (leBytes 4 payload.length ++ (payload ++ trailing))) 0 4 =
          leBytes 4 npkMagicBytes := by
      rw [slice, List.drop_zero]
      exact List.take_left' (length_leBytes _ _)
    have hlen : slice (leBytes 4 npkMagicBytes
        ++ (leBytes 4 payload.length ++ (payload ++ trailing))) 4 4 =
          leBytes 4 payload.length :=
      slice_mid _ (length_leBytes _ _) (length_leBytes _ _)
    have hpayload : slice (leBytes 4 npkMagicBytes
        ++ (leBytes 4 payload.length ++ (payload ++ trailing))) 8 payload.length =
          payload := by
      rw [← List.append_assoc]
      exact slice_mid _ (by simp) rfl
    rw [hmagic, hlen, leNat_leBytes_of_lt npkMagicBytes_lt, leNat_leBytes_of_lt hlt, hpayload]
    refine ⟨rfl, ?_, rfl⟩
    simp only [List.length_append, length_leBytes]
    omega
  · rintro ⟨hmagic, hfits, rfl⟩
    refine ⟨buffer.drop (8 + leNat (slice buffer 4 4)), ?_, ?_⟩
    · rw [length_slice hfits]
      exact leNat_slice_lt buffer 4 4
    · rw [length_slice hfits, ← hmagic, leBytes_slice (by omega), leBytes_slice (by omega),
        ← List.append_assoc, ← List.append_assoc, ← slice_add buffer 0 4 4,
        ← slice_add buffer 0 8]
      exact (List.take_append_drop _ _).symm

theorem PackagePayload.unique {buffer payload payload' : List UInt8}
    (h : PackagePayload buffer payload) (h' : PackagePayload buffer payload') :
    payload = payload' := by
  have hlen : 8 ≤ buffer.length := by
    obtain ⟨trailing, -, rfl⟩ := h
    simp only [List.length_append, length_leBytes]
    omega
  obtain ⟨-, -, rfl⟩ := (packagePayload_iff hlen).mp h
  obtain ⟨-, -, rfl⟩ := (packagePayload_iff hlen).mp h'
  rfl

theorem ContentPayload.unique {buffer x x' : List UInt8} (h : ContentPayload buffer x)
    (h' : ContentPayload buffer x') : x = x' := by
  obtain ⟨payload, c, hpayload, hc, rfl⟩ := h
  obtain ⟨payload', c', hpayload', hc', rfl⟩ := h'
  obtain rfl := hpayload.unique hpayload'
  rw [hc.unique hc']

theorem not_packagePayload_of_short {buffer payload : List UInt8} (h : buffer.length < 8) :
    ¬ PackagePayload buffer payload := by
  rintro ⟨trailing, -, rfl⟩
  simp only [List.length_append, length_leBytes] at h
  omega

/-- A package of containers, the last of which is the one with the content. -/
def npkPack (before : List NpkContainer) (c : NpkContainer) : List UInt8 :=
  let payload := NpkContainer.framing.encode (before ++ [c])
  leBytes 4 npkMagicBytes ++ (leBytes 4 payload.length ++ payload)

theorem contentPayload_npkPack {before : List NpkContainer} {c : NpkContainer}
    (hbefore : ∀ q ∈ before, ¬ q.IsContent) (hc : c.IsContent)
    (hlen : (NpkContainer.framing.encode (before ++ [c])).length < 2 ^ 32) :
    ContentPayload (npkPack before c) c.payload := by
  refine ⟨NpkContainer.framing.encode (before ++ [c]), c, ⟨[], hlen, ?_⟩, ⟨before, [], ?_⟩, rfl⟩
  · rw [npkPack, List.append_nil]
  · refine ⟨?_, hbefore, hc⟩
    simp

end Ccr2004
