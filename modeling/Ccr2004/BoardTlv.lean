import Ccr2004.Frames
import Ccr2004.Bytes
import Ccr2004.CString
import Mathlib.Data.Vector.Basic

/-!
# Board data as tagged values

The block of board data is a magic and a walk of tagged values, which are
frames: a tag other than the end tag, a length, and so many bytes. `applyTlv`
is what one of them means for the fields of the board, and `LastWins` what a
whole walk comes to: each field is that of the last value with its tag. None
of this mentions the parser.
-/

namespace Ccr2004

def rbTagEnd : UInt16 := 0x00
def rbTagBoardSerial : UInt16 := 0x0B
def rbTagMac : UInt16 := 0x04
def rbTagBoardName : UInt16 := 0x05

/-- `BOARD_NAME_MAX`. -/
def boardNameMax : Nat := 64

/-- `SERIAL_MAX`. -/
def serialMax : Nat := 32

/-- `BOARD_INFO_INSTANCE`, without the protocol it is reached by. -/
structure BoardInfoInstance where
  boardName : List.Vector UInt8 boardNameMax
  serial : List.Vector UInt8 serialMax
  macAddress : List.Vector UInt8 32

/-! ## The values -/

/-- A tagged value that is not the end, with a length its header can hold. -/
@[ext] structure BoardTlv where
  tag : UInt16
  value : List UInt8
  tag_ne : tag ≠ rbTagEnd
  value_lt : value.length < 2 ^ 16

namespace BoardTlv

def bytes (r : BoardTlv) : List UInt8 :=
  leBytes 2 r.tag.toNat ++ (leBytes 2 r.value.length ++ r.value)

@[simp] theorem length_bytes (r : BoardTlv) : r.bytes.length = 4 + r.value.length := by
  simp only [bytes, List.length_append, length_leBytes]
  omega

/-- The tag at the front of a list. -/
def tagOf (bs : List UInt8) : UInt16 := UInt16.ofNat (leNat (slice bs 0 2))

/-- The length after the tag. -/
def lengthOf (bs : List UInt8) : Nat := leNat (slice bs 2 2)

/-- The value a list starts with. -/
def next (bs : List UInt8) : Option BoardTlv :=
  if h : tagOf bs ≠ rbTagEnd ∧ 4 + lengthOf bs ≤ bs.length then
    some
      { tag := tagOf bs
        value := slice bs 4 (lengthOf bs)
        tag_ne := h.1
        value_lt := by rw [length_slice h.2]; exact leNat_slice_lt bs 2 2 }
  else none

theorem next_bytes_append (r : BoardTlv) (rest : List UInt8) :
    next (r.bytes ++ rest) = some r := by
  have htag : slice (r.bytes ++ rest) 0 2 = leBytes 2 r.tag.toNat := by
    rw [bytes, List.append_assoc]
    exact slice_append_here (length_leBytes _ _)
  have hlen : slice (r.bytes ++ rest) 2 2 = leBytes 2 r.value.length := by
    rw [bytes, List.append_assoc, List.append_assoc]
    exact slice_mid _ (length_leBytes _ _) (length_leBytes _ _)
  have hvalue : slice (r.bytes ++ rest) 4 r.value.length = r.value := by
    have heq : r.bytes ++ rest =
        (leBytes 2 r.tag.toNat ++ leBytes 2 r.value.length) ++ (r.value ++ rest) := by
      simp [bytes]
    rw [heq]
    exact slice_mid _ (by simp) rfl
  have hfield : lengthOf (r.bytes ++ rest) = r.value.length := by
    rw [lengthOf, hlen]
    exact leNat_leBytes_of_lt r.value_lt
  have htagOf : tagOf (r.bytes ++ rest) = r.tag := by
    rw [tagOf, htag, leNat_leBytes_of_lt r.tag.toNat_lt, UInt16.ofNat_toNat]
  have hfits : 4 + lengthOf (r.bytes ++ rest) ≤ (r.bytes ++ rest).length := by
    rw [hfield, List.length_append, length_bytes]
    omega
  rw [next, dif_pos ⟨htagOf ▸ r.tag_ne, hfits⟩, Option.some.injEq]
  ext1
  · exact htagOf
  · dsimp only
    rw [hfield, hvalue]

theorem bytes_of_next {bs : List UInt8} {r : BoardTlv} (h : next bs = some r) :
    r.bytes = slice bs 0 (4 + lengthOf bs) := by
  rw [next] at h
  split at h
  · rename_i hfits
    obtain rfl := Option.some.inj h
    have htag : (tagOf bs).toNat = leNat (slice bs 0 2) :=
      UInt16.toNat_ofNat_of_lt' (leNat_slice_lt bs 0 2)
    have hroom := hfits.2
    rw [bytes]
    dsimp only
    rw [htag, length_slice hfits.2, lengthOf, leBytes_slice (by omega), leBytes_slice (by omega),
      slice_add bs 0 4, slice_add bs 0 2 2, List.append_assoc]
  · cases h

/-- Tagged values, read from the front. -/
def framing : Framing UInt8 BoardTlv where
  bytes := bytes
  next := next
  bytes_ne r h := by
    have hlen := congrArg List.length h
    rw [length_bytes, List.length_nil] at hlen
    omega
  next_eq_some := by
    intro bs r
    constructor
    · intro h
      rw [bytes_of_next h]
      exact List.take_prefix _ _
    · rintro ⟨rest, rfl⟩
      exact next_bytes_append r rest

/-- The header decides whether there is a value. -/
theorem next_of_fits {bs : List UInt8} (htag : tagOf bs ≠ rbTagEnd)
    (h : 4 + lengthOf bs ≤ bs.length) :
    ∃ r, framing.next bs = some r ∧ r.tag = tagOf bs ∧ r.value = slice bs 4 (lengthOf bs) :=
  ⟨_, dif_pos ⟨htag, h⟩, rfl, rfl⟩

theorem next_eq_none {bs : List UInt8} (h : tagOf bs ≠ rbTagEnd → ¬ 4 + lengthOf bs ≤ bs.length) :
    framing.next bs = none :=
  dif_neg fun hfits => h hfits.1 hfits.2

end BoardTlv

/-! ## The fields -/

/-- A string put into a field: cut to leave room for the NUL, with what was
behind it left in place. -/
def putString {n : Nat} (hn : 0 < n) (field : List.Vector UInt8 n) (value : List UInt8) :
    List.Vector UInt8 n :=
  ⟨value.take (n - 1) ++ 0 :: field.toList.drop ((value.take (n - 1)).length + 1), by
    simp only [List.length_append, List.length_cons, List.length_drop, List.length_take,
      List.Vector.toList_length]
    omega⟩

/-- Bytes put at the front of a field. -/
def putFront {n : Nat} (field : List.Vector UInt8 n) (value : List UInt8)
    (h : value.length ≤ n) : List.Vector UInt8 n :=
  ⟨value ++ field.toList.drop value.length, by
    simp only [List.length_append, List.length_drop, List.Vector.toList_length]
    omega⟩

theorem length_take_six_le (value : List UInt8) : (value.take 6).length ≤ 32 := by
  rw [List.length_take]
  omega

/-- What a tagged value means. -/
def applyTlv (info : BoardInfoInstance) (r : BoardTlv) : BoardInfoInstance :=
  if r.tag = rbTagBoardName then
    { info with boardName := putString (by decide) info.boardName r.value }
  else if r.tag = rbTagBoardSerial then
    { info with serial := putString (by decide) info.serial r.value }
  else if r.tag = rbTagMac ∧ 6 ≤ r.value.length then
    { info with
      macAddress := putFront info.macAddress (r.value.take 6) (length_take_six_le r.value) }
  else info

/-- The string in a field. -/
def fieldString {n : Nat} (field : List.Vector UInt8 n) : List UInt8 := cString field.toList

theorem putString_leading {n : Nat} (hn : 0 < n) (field : List.Vector UInt8 n)
    (value : List UInt8) : value.take (n - 1) ++ [0] <+: (putString hn field value).toList :=
  ⟨field.toList.drop ((value.take (n - 1)).length + 1), List.append_assoc _ _ _⟩

theorem fieldString_of_leading {n : Nat} {field : List.Vector UInt8 n} {value : List UInt8}
    (h : value ++ [0] <+: field.toList) : fieldString field = cString value := by
  obtain ⟨rest, hrest⟩ := h
  rw [List.append_assoc] at hrest
  rw [fieldString, ← hrest]
  exact cString_append_zero value rest

/-- The last value with a tag. -/
def lastValue (tag : UInt16) (tlvs : List BoardTlv) : Option (List UInt8) :=
  ((tlvs.filter (·.tag = tag)).getLast?).map BoardTlv.value

/-- The last value that can be a MAC address. -/
def lastMac (tlvs : List BoardTlv) : Option (List UInt8) :=
  ((tlvs.filter fun r => r.tag = rbTagMac ∧ 6 ≤ r.value.length).getLast?).map BoardTlv.value

/-- A string field over a walk: the last value, cut to the field, and its
NUL; or what it was. -/
def StringOf {n : Nat} (old new : List.Vector UInt8 n) : Option (List UInt8) → Prop
  | none => new = old
  | some value => value.take (n - 1) ++ [0] <+: new.toList

/-- The MAC field over a walk: the first six bytes of the last value, or
what it was. -/
def MacOf (old new : List.Vector UInt8 32) : Option (List UInt8) → Prop
  | none => new = old
  | some value => new.toList = value.take 6 ++ old.toList.drop 6

/-- The last value of each tag wins. -/
structure LastWins (tlvs : List BoardTlv) (old new : BoardInfoInstance) : Prop where
  boardName : StringOf old.boardName new.boardName (lastValue rbTagBoardName tlvs)
  serial : StringOf old.serial new.serial (lastValue rbTagBoardSerial tlvs)
  mac : MacOf old.macAddress new.macAddress (lastMac tlvs)

theorem lastValue_append (tag : UInt16) (tlvs : List BoardTlv) (r : BoardTlv) :
    lastValue tag (tlvs ++ [r]) = if r.tag = tag then some r.value else lastValue tag tlvs := by
  rw [lastValue, List.filter_append, List.filter_singleton]
  by_cases h : r.tag = tag
  · simp [h]
  · simp [h, lastValue]

theorem lastMac_append (tlvs : List BoardTlv) (r : BoardTlv) :
    lastMac (tlvs ++ [r]) =
      if r.tag = rbTagMac ∧ 6 ≤ r.value.length then some r.value else lastMac tlvs := by
  rw [lastMac, List.filter_append, List.filter_singleton]
  by_cases h : r.tag = rbTagMac ∧ 6 ≤ r.value.length
  · simp [h]
  · simp [h, lastMac]

/-- What a walk has done to the MAC field so far it does again with the next
address. -/
theorem MacOf.put {old new : List.Vector UInt8 32} {last : Option (List UInt8)}
    (h : MacOf old new last) {value : List UInt8} (hlen : 6 ≤ value.length)
    (hlast : ∀ v, last = some v → 6 ≤ v.length) :
    MacOf old (putFront new (value.take 6) (length_take_six_le value)) (some value) := by
  have htake : (value.take 6).length = 6 := List.length_take_of_le hlen
  show value.take 6 ++ new.toList.drop (value.take 6).length = _
  rw [htake]
  cases last with
  | none =>
      obtain rfl : new = old := h
      rfl
  | some v =>
      have hnew : new.toList = v.take 6 ++ old.toList.drop 6 := h
      have hv : (v.take 6).length = 6 := List.length_take_of_le (hlast v rfl)
      rw [hnew, List.drop_left' hv]

theorem lastMac_length {tlvs : List BoardTlv} {value : List UInt8}
    (h : lastMac tlvs = some value) : 6 ≤ value.length := by
  obtain ⟨r, hr, rfl⟩ := Option.map_eq_some_iff.mp h
  have hmem := List.mem_of_getLast? hr
  simp only [List.mem_filter, decide_eq_true_eq] at hmem
  exact hmem.2.2

/-- The fold over a walk, the walk read from its end. -/
theorem lastWins_foldl (tlvs : List BoardTlv) (info : BoardInfoInstance) :
    LastWins tlvs info (tlvs.foldl applyTlv info) := by
  induction tlvs using List.reverseRecOn with
  | nil => exact ⟨rfl, rfl, rfl⟩
  | append_singleton tlvs r ih =>
      rw [List.foldl_append, List.foldl_cons, List.foldl_nil]
      generalize tlvs.foldl applyTlv info = before at ih
      obtain ⟨hname, hserial, hmac⟩ := ih
      rw [applyTlv]
      by_cases h₁ : r.tag = rbTagBoardName
      · rw [if_pos h₁]
        refine ⟨?_, ?_, ?_⟩
        · rw [lastValue_append, if_pos h₁]
          exact putString_leading (show 0 < boardNameMax by decide) _ _
        · rw [lastValue_append, if_neg (by rw [h₁]; decide)]
          exact hserial
        · rw [lastMac_append, if_neg (fun h => absurd (h₁ ▸ h.1) (by decide))]
          exact hmac
      rw [if_neg h₁]
      by_cases h₂ : r.tag = rbTagBoardSerial
      · rw [if_pos h₂]
        refine ⟨?_, ?_, ?_⟩
        · rw [lastValue_append, if_neg h₁]
          exact hname
        · rw [lastValue_append, if_pos h₂]
          exact putString_leading (show 0 < serialMax by decide) _ _
        · rw [lastMac_append, if_neg (fun h => absurd (h₂ ▸ h.1) (by decide))]
          exact hmac
      rw [if_neg h₂]
      by_cases h₃ : r.tag = rbTagMac ∧ 6 ≤ r.value.length
      · rw [if_pos h₃]
        refine ⟨?_, ?_, ?_⟩
        · rw [lastValue_append, if_neg h₁]
          exact hname
        · rw [lastValue_append, if_neg h₂]
          exact hserial
        · rw [lastMac_append, if_pos h₃]
          exact hmac.put h₃.2 fun v hv => lastMac_length hv
      · rw [if_neg h₃]
        refine ⟨?_, ?_, ?_⟩
        · rw [lastValue_append, if_neg h₁]
          exact hname
        · rw [lastValue_append, if_neg h₂]
          exact hserial
        · rw [lastMac_append, if_neg h₃]
          exact hmac

end Ccr2004
