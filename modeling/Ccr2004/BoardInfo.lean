import Ccr2004.BoardTlv
import Mathlib.Data.List.TakeWhile

/-!
# Board data: the parser

`ParseTlvBlock` walks a block of flash by positions, with a bound for every
access, and copies into the fields of the instance. It is the fold of
`applyTlv` over the values the block starts with: a round takes off one value
(`tlvRound_of_next`) or ends at a place where there is none
(`tlvRound_of_next_none`), so the loop follows the framing
(`tlvLoop_eq`).

Positions are offsets from `FlashBuf`; an access outside the buffer, or
outside a field of the instance, is a fault.
-/

namespace Ccr2004

/-- `BOARD_INFO_MAGIC`: "Hard". -/
def boardInfoMagic : UInt32 := 0x64726148

/-- `RB_TLV_HEADER`. -/
structure RbTlvHeader where
  tag : UInt16
  length : UInt16

def loadTlvHeader (flashBuf : List UInt8) (pos : Nat) : Run RbTlvHeader := do
  let bs ← loadSlice flashBuf pos 4
  .ok { tag := UInt16.ofNat (leNat (slice bs 0 2)), length := UInt16.ofNat (leNat (slice bs 2 2)) }

/-- `CopyMem` to the start of a field. -/
def copyField {n : Nat} (field : List.Vector UInt8 n) (bs : List UInt8) :
    Run (List.Vector UInt8 n) :=
  if h : bs.length ≤ n then .ok (putFront field bs h) else .error .outOfBounds

/-- `field[i] = c`. -/
def setChar {n : Nat} (field : List.Vector UInt8 n) (i : Nat) (c : UInt8) :
    Run (List.Vector UInt8 n) :=
  if h : i < n then .ok (field.set ⟨i, h⟩ c) else .error .outOfBounds

/-- What the cases of `RB_TAG_BOARD_NAME` and `RB_TAG_BOARD_SERIAL` do to
their field. -/
def copyString {n : Nat} (flashBuf : List UInt8) (field : List.Vector UInt8 n)
    (dataPtr length : Nat) : Run (List.Vector UInt8 n) := do
  let copyLen := if length ≥ n then n - 1 else length
  let bs ← loadSlice flashBuf dataPtr copyLen
  let field ← copyField field bs
  setChar field copyLen 0

/-- The `switch` of `ParseTlvBlock`. -/
def storeTag (flashBuf : List UInt8) (hdr : RbTlvHeader) (dataPtr : Nat)
    (info : BoardInfoInstance) : Run BoardInfoInstance :=
  if hdr.tag = rbTagBoardName then do
    let boardName ← copyString flashBuf info.boardName dataPtr hdr.length.toNat
    .ok { info with boardName := boardName }
  else if hdr.tag = rbTagBoardSerial then do
    let serial ← copyString flashBuf info.serial dataPtr hdr.length.toNat
    .ok { info with serial := serial }
  else if hdr.tag = rbTagMac then
    if hdr.length.toNat ≥ 6 then do
      let bs ← loadSlice flashBuf dataPtr 6
      let macAddress ← copyField info.macAddress bs
      .ok { info with macAddress := macAddress }
    else .ok info
  else .ok info

/-- One round of the `while` loop, at `Pos`. -/
def tlvRound (flashBuf : List UInt8) (bufSize : Nat) :
    Nat × BoardInfoInstance → Run (Flow (Nat × BoardInfoInstance) BoardInfoInstance)
  | (pos, info) =>
      if pos + 4 ≤ bufSize then do
        let hdr ← loadTlvHeader flashBuf pos
        if hdr.tag = rbTagEnd then .ok (.exit info)
        else
          let dataPtr := pos + 4
          if dataPtr + hdr.length.toNat > bufSize then .ok (.exit info)
          else do
            let info ← storeTag flashBuf hdr dataPtr info
            .ok (.next (dataPtr + hdr.length.toNat, info))
      else .ok (.exit info)

/-- `ParseTlvBlock`. -/
def parseTlvBlock (flashBuf : List UInt8) (bufSize : Nat) (info : BoardInfoInstance) :
    Run BoardInfoInstance :=
  if bufSize < 4 then .ok info
  else do
    let magic ← loadSlice flashBuf 0 4
    if UInt32.ofNat (leNat magic) ≠ boardInfoMagic then .ok info
    else loopFuel (tlvRound flashBuf bufSize) (bufSize + 1) (4, info)

/-! ## One round -/

section Round

variable {buf : List UInt8}

open BoardTlv (tagOf lengthOf framing)

theorem loadTlvHeader_ok {pos : Nat} (h : pos + 4 ≤ buf.length) :
    loadTlvHeader buf pos =
      .ok { tag := tagOf (buf.drop pos), length := UInt16.ofNat (lengthOf (buf.drop pos)) } := by
  rw [loadTlvHeader, loadSlice_ok h, ok_bind]
  have hslice : ∀ off, off + 2 ≤ 4 → slice (slice buf pos 4) off 2 = slice (buf.drop pos) off 2 :=
    fun off hoff => by rw [slice_slice buf hoff, slice_drop]
  rw [hslice 0 (by omega), hslice 2 (by omega)]
  rfl

theorem toNat_lengthOf (bs : List UInt8) : (UInt16.ofNat (lengthOf bs)).toNat = lengthOf bs :=
  UInt16.toNat_ofNat_of_lt' (leNat_slice_lt bs 2 2)

/-- A copy that leaves room for the NUL. -/
theorem copyField_setChar {n : Nat} (field : List.Vector UInt8 n) {bs : List UInt8}
    (h : bs.length < n) :
    ∃ field', (copyField field bs >>= fun f => setChar f bs.length 0) = .ok field'
      ∧ field'.toList = bs ++ 0 :: field.toList.drop (bs.length + 1) := by
  refine ⟨(putFront field bs (by omega)).set ⟨bs.length, h⟩ 0, ?_, ?_⟩
  · rw [copyField, dif_pos (by omega), ok_bind, setChar, dif_pos h]
  · show (bs ++ field.toList.drop bs.length).set bs.length 0 = _
    have hroom : bs.length < field.toList.length := by
      rw [List.Vector.toList_length]
      exact h
    rw [List.set_append_right _ _ (Nat.le_refl _), Nat.sub_self,
      List.drop_eq_getElem_cons hroom, List.set_cons_zero]

/-- Copying a string inside the buffer. -/
theorem copyString_ok {n pos length : Nat} (hn : 0 < n) (field : List.Vector UInt8 n)
    (h : pos + length ≤ buf.length) :
    copyString buf field pos length = .ok (putString hn field (slice buf pos length)) := by
  have hcopy : (if length ≥ n then n - 1 else length) = min (n - 1) length := by
    split <;> omega
  have hvalue : slice buf pos (min (n - 1) length) = (slice buf pos length).take (n - 1) := by
    rw [slice, slice, List.take_take]
  have hlen : ((slice buf pos length).take (n - 1)).length = min (n - 1) length := by
    rw [List.length_take, length_slice h]
  obtain ⟨field', hrun, hfield⟩ :=
    copyField_setChar field (hlen ▸ (by omega : min (n - 1) length < n))
  rw [copyString, hcopy, loadSlice_ok (by omega), ok_bind, hvalue, ← hlen, hrun]
  exact congrArg Except.ok (List.Vector.toList_injective hfield)

/-- The `switch` does what the value means. -/
theorem storeTag_ok {hdr : RbTlvHeader} {pos : Nat} (info : BoardInfoInstance) {r : BoardTlv}
    (htag : hdr.tag = r.tag) (hvalue : r.value = slice buf pos hdr.length.toNat)
    (h : pos + hdr.length.toNat ≤ buf.length) :
    storeTag buf hdr pos info = .ok (applyTlv info r) := by
  have hlen : r.value.length = hdr.length.toNat := by
    rw [hvalue]
    exact length_slice h
  rw [storeTag, applyTlv, htag]
  by_cases h₁ : r.tag = rbTagBoardName
  · rw [if_pos h₁, if_pos h₁, copyString_ok (by decide) info.boardName h, ← hvalue]
    rfl
  rw [if_neg h₁, if_neg h₁]
  by_cases h₂ : r.tag = rbTagBoardSerial
  · rw [if_pos h₂, if_pos h₂, copyString_ok (by decide) info.serial h, ← hvalue]
    rfl
  rw [if_neg h₂, if_neg h₂]
  by_cases h₃ : r.tag = rbTagMac
  · rw [if_pos h₃]
    by_cases h₄ : 6 ≤ hdr.length.toNat
    · have hsix : slice buf pos 6 = r.value.take 6 := by
        rw [hvalue, slice, slice, List.take_take, Nat.min_eq_left h₄]
      rw [if_pos h₄, if_pos ⟨h₃, hlen ▸ h₄⟩, loadSlice_ok (by omega), ok_bind, hsix, copyField,
        dif_pos (length_take_six_le r.value)]
      rfl
    · rw [if_neg h₄, if_neg fun hmac => h₄ (hlen ▸ hmac.2)]
  · rw [if_neg h₃, if_neg fun hmac => h₃ hmac.1]

/-- Where the buffer goes on with a value, a round takes it off. -/
theorem tlvRound_of_next {pos : Nat} {r : BoardTlv} (info : BoardInfoInstance)
    (h : framing.next (buf.drop pos) = some r) :
    tlvRound buf buf.length (pos, info) =
      .ok (.next (pos + r.bytes.length, applyTlv info r)) := by
  by_cases hfits : tagOf (buf.drop pos) ≠ rbTagEnd
      ∧ 4 + lengthOf (buf.drop pos) ≤ (buf.drop pos).length
  · obtain ⟨r', hr', htag, hvalue⟩ := BoardTlv.next_of_fits hfits.1 hfits.2
    obtain rfl := Option.some.inj (hr'.symm.trans h)
    have hroom := hfits.2
    rw [List.length_drop] at hroom
    have hlen : r'.bytes.length = 4 + lengthOf (buf.drop pos) := by
      rw [BoardTlv.length_bytes, hvalue, length_slice hfits.2]
    rw [slice_drop] at hvalue
    rw [tlvRound, if_pos (by omega), loadTlvHeader_ok (by omega), ok_bind, if_neg hfits.1,
      toNat_lengthOf, if_neg (by omega)]
    rw [storeTag_ok info htag.symm (by rw [toNat_lengthOf]; exact hvalue)
      (by rw [toNat_lengthOf]; omega), ok_bind, hlen, Nat.add_assoc]
  · rw [BoardTlv.next_eq_none fun htag hlen => hfits ⟨htag, hlen⟩] at h
    cases h

/-- Where it does not, the loop ends. -/
theorem tlvRound_of_next_none {pos : Nat} (info : BoardInfoInstance)
    (h : framing.next (buf.drop pos) = none) :
    tlvRound buf buf.length (pos, info) = .ok (.exit info) := by
  rw [tlvRound]
  by_cases hhdr : pos + 4 ≤ buf.length
  · rw [if_pos hhdr, loadTlvHeader_ok hhdr, ok_bind, toNat_lengthOf]
    by_cases htag : tagOf (buf.drop pos) = rbTagEnd
    · exact if_pos htag
    · have hover : pos + 4 + lengthOf (buf.drop pos) > buf.length := by
        by_contra hfits
        have hroom : 4 + lengthOf (buf.drop pos) ≤ (buf.drop pos).length := by
          rw [List.length_drop]
          omega
        obtain ⟨r, hr, -⟩ := BoardTlv.next_of_fits htag hroom
        rw [hr] at h
        cases h
      rw [if_neg htag]
      exact if_pos hover
  · exact if_neg hhdr

/-- The loop folds over the values the rest of the buffer starts with. -/
theorem tlvLoop_eq (tlvs : List BoardTlv) {rest : List UInt8}
    (hrest : framing.next rest = none) : ∀ {pos fuel : Nat} (info : BoardInfoInstance),
    buf.drop pos = framing.encode tlvs ++ rest → tlvs.length < fuel →
    loopFuel (tlvRound buf buf.length) fuel (pos, info) = .ok (tlvs.foldl applyTlv info) := by
  induction tlvs with
  | nil =>
      intro pos fuel info hbuf hfuel
      obtain ⟨fuel, rfl⟩ := Nat.exists_eq_succ_of_ne_zero (Nat.ne_zero_of_lt hfuel)
      exact loopFuel_exit (tlvRound_of_next_none info (by rw [hbuf]; exact hrest))
  | cons r tlvs ih =>
      intro pos fuel info hbuf hfuel
      obtain ⟨fuel, rfl⟩ := Nat.exists_eq_succ_of_ne_zero (Nat.ne_zero_of_lt hfuel)
      rw [Framing.encode_cons, List.append_assoc] at hbuf
      have hnext : framing.next (buf.drop pos) = some r := by
        rw [hbuf]
        exact Framing.next_append r _
      have hround := tlvRound_of_next info hnext
      rw [loopFuel_next hround, List.foldl_cons]
      refine ih _ ?_ (by rw [List.length_cons] at hfuel; omega)
      rw [← List.drop_drop, hbuf]
      exact List.drop_left

end Round

/-! ## A block -/

def boardMagicBytes : List UInt8 := leBytes 4 boardInfoMagic.toNat

def HasMagic (buf : List UInt8) : Prop := boardMagicBytes <+: buf

theorem parseTlvBlock_magic (payload : List UInt8) (info : BoardInfoInstance) :
    parseTlvBlock (boardMagicBytes ++ payload) (boardMagicBytes ++ payload).length info =
      loopFuel (tlvRound (boardMagicBytes ++ payload) (boardMagicBytes ++ payload).length)
        ((boardMagicBytes ++ payload).length + 1) (4, info) := by
  have hmagic : boardMagicBytes.length = 4 := length_leBytes _ _
  have hword : leNat boardMagicBytes = boardInfoMagic.toNat :=
    leNat_leBytes_of_lt boardInfoMagic.toNat_lt
  have hlen : 4 ≤ (boardMagicBytes ++ payload).length := by
    rw [List.length_append]
    omega
  rw [parseTlvBlock, if_neg (by omega), loadSlice_ok (by omega), ok_bind,
    slice_append_here hmagic, hword, UInt32.ofNat_toNat]
  exact if_neg fun h => h rfl

theorem parseTlvBlock_not_magic {buf : List UInt8} (h : ¬ HasMagic buf)
    (info : BoardInfoInstance) : parseTlvBlock buf buf.length info = .ok info := by
  rw [parseTlvBlock]
  by_cases hlen : buf.length < 4
  · exact if_pos hlen
  · have hne : UInt32.ofNat (leNat (slice buf 0 4)) ≠ boardInfoMagic := fun heq => h (by
      have hword : (UInt32.ofNat (leNat (slice buf 0 4))).toNat = leNat (slice buf 0 4) :=
        UInt32.toNat_ofNat_of_lt' (leNat_slice_lt buf 0 4)
      rw [HasMagic, boardMagicBytes, ← heq, hword, leBytes_slice (by omega)]
      exact List.take_prefix _ _)
    rw [if_neg hlen, loadSlice_ok (by omega), ok_bind]
    exact if_pos hne

/-- A walk has at most as many values as bytes. -/
theorem length_le_encode (tlvs : List BoardTlv) :
    tlvs.length ≤ (BoardTlv.framing.encode tlvs).length := by
  induction tlvs with
  | nil => exact Nat.le_refl 0
  | cons r tlvs ih =>
      have hbytes : (BoardTlv.framing.bytes r).length = 4 + r.value.length := r.length_bytes
      rw [Framing.encode_cons, List.length_append, List.length_cons, hbytes]
      omega

/-- With the magic the parser is the fold. -/
theorem parseTlvBlock_encode (tlvs : List BoardTlv) {rest : List UInt8}
    (hrest : BoardTlv.framing.next rest = none) {buf : List UInt8}
    (hbuf : buf = boardMagicBytes ++ (BoardTlv.framing.encode tlvs ++ rest))
    (info : BoardInfoInstance) :
    parseTlvBlock buf buf.length info = .ok (tlvs.foldl applyTlv info) := by
  have hmagic : boardMagicBytes.length = 4 := length_leBytes _ _
  subst hbuf
  rw [parseTlvBlock_magic]
  refine tlvLoop_eq tlvs hrest info ?_ ?_
  · rw [← hmagic, List.drop_left]
  · have hcount := length_le_encode tlvs
    simp only [List.length_append]
    omega

/-! ## Serialised fields -/

/-- A string that a field of `n` characters holds with its NUL. -/
structure BoardText (n : Nat) where
  chars : List UInt8
  noNul : (0 : UInt8) ∉ chars
  fits : chars.length < n

inductive BoardField where
  | boardName (name : BoardText boardNameMax)
  | serial (number : BoardText serialMax)
  | mac (address : List.Vector UInt8 6)

namespace BoardField

def tlv : BoardField → BoardTlv
  | .boardName name =>
      { tag := rbTagBoardName
        value := name.chars
        tag_ne := by decide
        value_lt := Nat.lt_trans name.fits (by decide) }
  | .serial number =>
      { tag := rbTagBoardSerial
        value := number.chars
        tag_ne := by decide
        value_lt := Nat.lt_trans number.fits (by decide) }
  | .mac address =>
      { tag := rbTagMac
        value := address.toList
        tag_ne := by decide
        value_lt := by rw [List.Vector.toList_length]; decide }

def nameOf : BoardField → Option (List UInt8)
  | .boardName name => some name.chars
  | _ => none

def serialOf : BoardField → Option (List UInt8)
  | .serial number => some number.chars
  | _ => none

def macOf : BoardField → Option (List UInt8)
  | .mac address => some address.toList
  | _ => none

end BoardField

/-- The last field of a kind. -/
def lastField (kind : BoardField → Option (List UInt8)) (fields : List BoardField) :
    Option (List UInt8) :=
  (fields.filterMap kind).getLast?

/-- A block that says `fields`; `rest` is what the walk ends at. -/
def boardBlock (fields : List BoardField) (rest : List UInt8) : List UInt8 :=
  boardMagicBytes ++ (BoardTlv.framing.encode (fields.map BoardField.tlv) ++ rest)

/-- What is read of a field is the last value that was said of it; a field of
which nothing was said is what it was. -/
def ReadsBack {n : Nat} (read : List.Vector UInt8 n → List UInt8)
    (old new : List.Vector UInt8 n) : Option (List UInt8) → Prop
  | none => new = old
  | some value => read new = value

structure ReadsFields (fields : List BoardField) (old new : BoardInfoInstance) : Prop where
  boardName : ReadsBack fieldString old.boardName new.boardName
    (lastField BoardField.nameOf fields)
  serial : ReadsBack fieldString old.serial new.serial (lastField BoardField.serialOf fields)
  mac : ReadsBack (fun field => field.toList.take 6) old.macAddress new.macAddress
    (lastField BoardField.macOf fields)

section Fields

variable {kind : BoardField → Option (List UInt8)} {fields : List BoardField}

theorem exists_of_lastField {value : List UInt8} (h : lastField kind fields = some value) :
    ∃ field, kind field = some value := by
  obtain ⟨field, -, hfield⟩ := List.mem_filterMap.mp (List.mem_of_getLast? h)
  exact ⟨field, hfield⟩

/-- The last field of a kind is the last value of a kind. -/
theorem lastField_eq (kind : BoardField → Option (List UInt8)) (fields : List BoardField) {p : BoardTlv → Bool}
    (h : ∀ field, kind field = if p field.tlv then some field.tlv.value else none) :
    lastField kind fields =
      (((fields.map BoardField.tlv).filter p).getLast?).map BoardTlv.value := by
  rw [← List.getLast?_map, lastField]
  refine congrArg List.getLast? ?_
  induction fields with
  | nil => rfl
  | cons field fields ih =>
      rw [List.map_cons, List.filterMap_cons, h field]
      by_cases hp : p field.tlv
      · simp [hp, ih]
      · simp [hp, ih]

theorem StringOf.readsBack {n : Nat} {old new : List.Vector UInt8 n}
    (h : StringOf old new (lastField kind fields))
    (hkind : ∀ field value, kind field = some value → 0 ∉ value ∧ value.length < n) :
    ReadsBack fieldString old new (lastField kind fields) := by
  cases hlast : lastField kind fields with
  | none =>
      rw [hlast] at h
      exact h
  | some value =>
      rw [hlast] at h
      obtain ⟨field, hfield⟩ := exists_of_lastField hlast
      obtain ⟨hnul, hlen⟩ := hkind field value hfield
      have hwhole : value.take (n - 1) = value := List.take_of_length_le (by omega)
      have hfront : value ++ [0] <+: new.toList := hwhole ▸ h
      have hself : cString value = value :=
        List.takeWhile_eq_self_iff.mpr fun c hc => decide_eq_true fun h0 : c = 0 => hnul (h0 ▸ hc)
      exact (fieldString_of_leading hfront).trans hself

theorem MacOf.readsBack {old new : List.Vector UInt8 32}
    (h : MacOf old new (lastField kind fields))
    (hkind : ∀ field value, kind field = some value → value.length = 6) :
    ReadsBack (fun field => field.toList.take 6) old new (lastField kind fields) := by
  cases hlast : lastField kind fields with
  | none =>
      rw [hlast] at h
      exact h
  | some value =>
      rw [hlast] at h
      obtain ⟨field, hfield⟩ := exists_of_lastField hlast
      have hlen := hkind field value hfield
      have hnew : new.toList = value.take 6 ++ old.toList.drop 6 := h
      show new.toList.take 6 = value
      rw [hnew, List.take_of_length_le (Nat.le_of_eq hlen)]
      exact List.take_left' hlen

/-- What the fields of a list come to as tagged values. -/
theorem LastWins.readsFields {old new : BoardInfoInstance}
    (h : LastWins (fields.map BoardField.tlv) old new) : ReadsFields fields old new where
  boardName := by
    have hlast := lastField_eq BoardField.nameOf fields
      (p := fun r => r.tag = rbTagBoardName) fun field => by cases field <;> rfl
    refine StringOf.readsBack (hlast ▸ h.boardName) fun field value hfield => ?_
    cases field with
    | boardName name => cases hfield; exact ⟨name.noNul, name.fits⟩
    | serial number => cases hfield
    | mac address => cases hfield
  serial := by
    have hlast := lastField_eq BoardField.serialOf fields
      (p := fun r => r.tag = rbTagBoardSerial) fun field => by cases field <;> rfl
    refine StringOf.readsBack (hlast ▸ h.serial) fun field value hfield => ?_
    cases field with
    | boardName name => cases hfield
    | serial number => cases hfield; exact ⟨number.noNul, number.fits⟩
    | mac address => cases hfield
  mac := by
    have hlast := lastField_eq BoardField.macOf fields
      (p := fun r => r.tag = rbTagMac ∧ 6 ≤ r.value.length) fun field => by
        cases field with
        | boardName name => rfl
        | serial number => rfl
        | mac address => simp [BoardField.macOf, BoardField.tlv]
    refine MacOf.readsBack (hlast ▸ h.mac) fun field value hfield => ?_
    cases field with
    | boardName name => cases hfield
    | serial number => cases hfield
    | mac address => cases hfield; exact address.toList_length

end Fields

/-- `ParseTlvBlock` ends inside its buffer. Without the magic it changes
nothing; with it it folds over the values up to the first place where there is
none, and the last value of each tag wins. What was serialised is read back. -/
theorem parseTlvBlock_folds (info : BoardInfoInstance) :
    (∀ buf, ¬ HasMagic buf → parseTlvBlock buf buf.length info = .ok info)
      ∧ (∀ buf, HasMagic buf → ∃ tlvs rest,
          buf = boardMagicBytes ++ (BoardTlv.framing.encode tlvs ++ rest)
          ∧ BoardTlv.framing.next rest = none
          ∧ parseTlvBlock buf buf.length info = .ok (tlvs.foldl applyTlv info)
          ∧ LastWins tlvs info (tlvs.foldl applyTlv info))
      ∧ ∀ fields rest, BoardTlv.framing.next rest = none → ∃ new,
          parseTlvBlock (boardBlock fields rest) (boardBlock fields rest).length info = .ok new
          ∧ ReadsFields fields info new := by
  refine ⟨fun buf hmagic => parseTlvBlock_not_magic hmagic info, ?_, ?_⟩
  · rintro buf ⟨payload, rfl⟩
    obtain ⟨tlvs, rest, rfl, hrest⟩ := BoardTlv.framing.exists_leading payload
    exact ⟨tlvs, rest, rfl, hrest, parseTlvBlock_encode tlvs hrest rfl info,
      lastWins_foldl tlvs info⟩
  · intro fields rest hrest
    exact ⟨_, parseTlvBlock_encode _ hrest rfl info, (lastWins_foldl _ info).readsFields⟩

end Ccr2004
