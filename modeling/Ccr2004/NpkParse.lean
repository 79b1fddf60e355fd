import Ccr2004.NpkGrammar
import Ccr2004.ZlibStored
import Mathlib.Data.List.Forall2

/-!
# What the parser accepts

Each walk of the parser is one of the two ways of walking frames, so each
round is one rule of `Framing`: a header that does not fit is a list without
a frame at its front, and a round that goes on has taken one frame off.
`npkParseEntries_spec` and `findContent_spec` are the walks,
`npkParseBuffer_spec` the parser on any buffer: it accepts the packages whose
content is within the limit of the inflate loop.
`npkParseBuffer_accepts_iff` is the case where nothing is cut off.
-/

namespace Ccr2004

/-! ## Fields -/

theorem readLe16_ok {buffer : List UInt8} {off : Nat} (h : off + 2 ≤ buffer.length) :
    readLe16 buffer off = .ok (UInt16.ofNat (leNat (slice buffer off 2))) := by
  rw [readLe16, loadSlice_ok h]
  rfl

theorem readLe32_ok {buffer : List UInt8} {off : Nat} (h : off + 4 ≤ buffer.length) :
    readLe32 buffer off = .ok (UInt32.ofNat (leNat (slice buffer off 4))) := by
  rw [readLe32, loadSlice_ok h]
  rfl

@[simp] theorem toNat_ofNat_slice_two (buffer : List UInt8) (off : Nat) :
    (UInt16.ofNat (leNat (slice buffer off 2))).toNat = leNat (slice buffer off 2) :=
  UInt16.toNat_ofNat_of_lt' (leNat_slice_lt buffer off 2)

@[simp] theorem toNat_ofNat_slice_four (buffer : List UInt8) (off : Nat) :
    (UInt32.ofNat (leNat (slice buffer off 4))).toNat = leNat (slice buffer off 4) :=
  UInt32.toNat_ofNat_of_lt' (leNat_slice_lt buffer off 4)

/-! ## Entries -/

/-- `e` is the entry of the record `r`, with its payload in the content
buffer. -/
structure EntryOf (content : List UInt8) (r : NpkRecord) (e : NpkEntry) : Prop where
  name : e.name = r.name ++ [0]
  mode : e.mode = r.mode
  size : e.size.toNat = r.payload.length
  type : e.type = npkEntryTypeFromMode r.mode
  inside : e.data + e.size.toNat ≤ content.length
  data : slice content e.data e.size.toNat = r.payload

/-- The walk has taken the records `done` off the content. -/
structure EntriesSeen (content : List UInt8) (st : Nat × NpkPackage) : Prop where
  buffer : st.2.contentBuffer = content
  inside : st.1 ≤ content.length
  done : ∃ done, List.Forall₂ (EntryOf content) done st.2.entries
    ∧ ∀ rs, NpkRecord.framing.encode rs = content ↔
        ∃ rs', rs = done ++ rs' ∧ NpkRecord.framing.encode rs' = content.drop st.1

/-- What the walk ends with: the entries of the records the content is made
of, or an error when it is not made of records. -/
def EntriesResult (content : List UInt8) (res : NpkStatus × NpkPackage) : Prop :=
  (res.1 = .ok → ∃ rs, NpkRecord.framing.encode rs = content
      ∧ res.2.contentBuffer = content ∧ List.Forall₂ (EntryOf content) rs res.2.entries)
    ∧ (res.1 ≠ .ok → ∀ rs, NpkRecord.framing.encode rs ≠ content)

theorem EntriesResult.of_rejected {content : List UInt8} {status : NpkStatus}
    {package : NpkPackage} (hstatus : status ≠ .ok)
    (h : ∀ rs, NpkRecord.framing.encode rs ≠ content) :
    EntriesResult content (status, package) :=
  ⟨fun hok => absurd hok hstatus, fun _ => h⟩

/-- The walk has taken one record more off the content. -/
theorem EntriesSeen.push {content : List UInt8} {offset : Nat} {package : NpkPackage}
    (h : EntriesSeen content (offset, package)) {r : NpkRecord} {e : NpkEntry}
    (hr : NpkRecord.framing.next (content.drop offset) = some r) (he : EntryOf content r e)
    (hle : offset + (NpkRecord.framing.bytes r).length ≤ content.length) :
    EntriesSeen content (offset + (NpkRecord.framing.bytes r).length,
      { contentBuffer := content, entries := package.entries ++ [e] }) := by
  obtain ⟨done, hentries, hiff⟩ := h.done
  refine ⟨rfl, hle, done ++ [r], ?_, ?_⟩
  · exact List.rel_append hentries (.cons he .nil)
  · intro rs
    rw [hiff rs]
    constructor
    · rintro ⟨rs', rfl, hrs'⟩
      obtain ⟨rs'', rfl, hrs''⟩ := (Framing.encode_eq_iff_of_next hr).mp hrs'
      refine ⟨rs'', by rw [List.append_assoc]; rfl, ?_⟩
      rw [hrs'', List.drop_drop]
    · rintro ⟨rs'', rfl, hrs''⟩
      refine ⟨r :: rs'', by rw [List.append_assoc]; rfl, ?_⟩
      refine (Framing.encode_eq_iff_of_next hr).mpr ⟨rs'', rfl, ?_⟩
      rw [hrs'', List.drop_drop]

variable {alloc : Nat → Bool}

theorem npkAppendEntry_ok (halloc : ∀ n, alloc n = true) {package : NpkPackage}
    {namePtr : Nat} {nameLen : UInt16} (mode : UInt16) (payloadPtr : Nat)
    (payloadLen : UInt32) (h : namePtr + nameLen.toNat ≤ package.contentBuffer.length) :
    npkAppendEntry alloc package namePtr nameLen mode payloadPtr payloadLen =
      .ok (.ok, { package with
        entries := package.entries ++
          [{ name := slice package.contentBuffer namePtr nameLen.toNat ++ [0]
             mode := mode
             size := payloadLen
             type := npkEntryTypeFromMode mode
             data := payloadPtr }] }) := by
  rw [npkAppendEntry, if_neg (by simp [halloc]), if_neg (by simp [halloc]), loadSlice_ok h]
  rfl

/-- A list the walk finds no record at the front of. -/
theorem EntriesSeen.stuck {content : List UInt8} {st : Nat × NpkPackage}
    (h : EntriesSeen content st) (hlt : st.1 < content.length)
    (hnext : NpkRecord.framing.next (content.drop st.1) = none) (rs : List NpkRecord) :
    NpkRecord.framing.encode rs ≠ content := by
  obtain ⟨done, -, hiff⟩ := h.done
  intro henc
  obtain ⟨rs', -, hrest⟩ := (hiff rs).mp henc
  have hne : content.drop st.1 ≠ [] := by
    intro hnil
    rw [List.drop_eq_nil_iff] at hnil
    omega
  exact Framing.encode_ne_of_next_none hnext hne rs' hrest

theorem entriesRound_spec (halloc : ∀ n, alloc n = true) {content : List UInt8}
    {st : Nat × NpkPackage} (hst : EntriesSeen content st) :
    ∃ c, entriesRound alloc st = .ok c ∧
      c.Post (fun st' => EntriesSeen content st'
          ∧ content.length - st'.1 < content.length - st.1)
        (EntriesResult content) := by
  obtain ⟨offset, package⟩ := st
  have hbuffer := hst.buffer
  have hinside := hst.inside
  dsimp only at hbuffer hinside
  have hdrop : ∀ off n, slice (content.drop offset) off n = slice content (offset + off) n :=
    slice_drop content offset
  rw [entriesRound]
  dsimp only
  rw [hbuffer]
  by_cases hmore : offset < content.length
  · rw [if_pos hmore]
    have hstuck := hst.stuck hmore
    by_cases hheader : content.length - offset < npkZlibObjectHeaderSize
    · -- no room for a header
      rw [if_pos hheader]
      rw [npkZlibObjectHeaderSize] at hheader
      refine ⟨_, rfl, .of_rejected (by decide) (hstuck (NpkRecord.next_of_not_fits ?_))⟩
      rw [List.length_drop]
      omega
    · rw [if_neg hheader]
      rw [npkZlibObjectHeaderSize] at hheader ⊢
      rw [readLe16_ok (by omega), readLe32_ok (by omega), readLe16_ok (by omega)]
      simp only [ok_bind, toNat_ofNat_slice_two, toNat_ofNat_slice_four]
      by_cases hfits : 30 + leNat (slice content (offset + 28) 2)
          + leNat (slice content (offset + 24) 4) > content.length - offset
      · -- no room for the record
        rw [if_pos hfits]
        refine ⟨_, rfl, .of_rejected (by decide) (hstuck (NpkRecord.next_of_not_fits ?_))⟩
        rw [hdrop, hdrop, List.length_drop]
        omega
      · -- one record more
        have hrecord : 30 + leNat (slice (content.drop offset) 28 2)
            + leNat (slice (content.drop offset) 24 4) ≤ (content.drop offset).length := by
          rw [hdrop, hdrop, List.length_drop]
          omega
        obtain ⟨r, hr, hmode, hname, hpayload, hlen⟩ := NpkRecord.next_of_fits hrecord
        rw [hdrop, Nat.add_zero] at hmode
        rw [hdrop, hdrop] at hname
        rw [hdrop, hdrop, hdrop, ← Nat.add_assoc] at hpayload
        rw [hdrop, hdrop] at hlen
        rw [if_neg hfits, npkAppendEntry_ok halloc _ _ _
          (by rw [hbuffer, toNat_ofNat_slice_two]; omega), hbuffer, toNat_ofNat_slice_two,
          ← hlen, ← hname, ← hmode]
        refine ⟨_, rfl, hst.push hr ?_ (by omega), by dsimp only; omega⟩
        constructor
        · rfl
        · rfl
        · dsimp only
          rw [hpayload, toNat_ofNat_slice_four, length_slice (by omega)]
        · rfl
        · dsimp only
          rw [toNat_ofNat_slice_four]
          omega
        · dsimp only
          rw [hpayload, toNat_ofNat_slice_four]
  · -- the content is used up
    rw [if_neg hmore]
    obtain ⟨done, hentries, hiff⟩ := hst.done
    refine ⟨_, rfl, fun _ => ⟨done, ?_, hbuffer, hentries⟩, fun h => absurd rfl h⟩
    refine (hiff done).mpr ⟨[], by simp, ?_⟩
    rw [Framing.encode_nil, eq_comm, List.drop_eq_nil_iff]
    dsimp only
    omega

/-- The walk through the records always ends, and inside the content. -/
theorem npkParseEntries_spec (halloc : ∀ n, alloc n = true) (content : List UInt8) :
    ∃ res, npkParseEntries alloc { contentBuffer := content, entries := [] } = .ok res
      ∧ EntriesResult content res := by
  have hstart : EntriesSeen content (0, { contentBuffer := content, entries := [] }) := by
    refine ⟨rfl, Nat.zero_le _, [], .nil, fun rs => ?_⟩
    simp
  exact loopFuel_total (fun st hst => entriesRound_spec halloc hst) hstart (by simp)

/-! ## Containers -/

/-- The walk has skipped containers that do not count. -/
def ContainersSeen (payload : List UInt8) (offset : Nat) : Prop :=
  8 ≤ offset ∧ offset ≤ 8 + payload.length
    ∧ ∀ c, NpkContainer.framing.First NpkContainer.IsContent payload c ↔
        NpkContainer.framing.First NpkContainer.IsContent
          (payload.drop (offset - 8)) c

/-- What the walk ends with: the payload of the first container that counts,
or an error when there is none. -/
def ContainersResult (payload : List UInt8) (res : Except NpkStatus (List UInt8)) : Prop :=
  res ≠ .error .ok
    ∧ ∀ x, res = .ok x ↔
        ∃ c, NpkContainer.framing.First NpkContainer.IsContent payload c
          ∧ c.payload = x

theorem ContainersResult.of_rejected {payload : List UInt8} {status : NpkStatus}
    (hstatus : status ≠ .ok)
    (h : ∀ c, ¬ NpkContainer.framing.First NpkContainer.IsContent payload c) :
    ContainersResult payload (.error status) := by
  refine ⟨fun heq => hstatus (Except.error.inj heq), fun x => ?_⟩
  simp [h]

theorem containerRound_spec {buffer payload : List UInt8} {offset : Nat}
    (hpayload : payload = slice buffer 8 payload.length)
    (hbuffer : 8 + payload.length ≤ buffer.length) (hoff : ContainersSeen payload offset) :
    ∃ c, containerRound buffer (8 + payload.length) offset = .ok c ∧
      c.Post (fun offset' => ContainersSeen payload offset'
          ∧ 8 + payload.length - offset' < 8 + payload.length - offset)
        (ContainersResult payload) := by
  obtain ⟨hlow, hhigh, hiff⟩ := hoff
  have hrest : (payload.drop (offset - 8)).length = 8 + payload.length - offset := by
    rw [List.length_drop]
    omega
  have hfield : ∀ off n, offset + off + n ≤ 8 + payload.length →
      slice (payload.drop (offset - 8)) off n = slice buffer (offset + off) n := by
    intro off n hle
    rw [hpayload, slice_drop, slice_slice _ (by omega),
      show 8 + (offset - 8 + off) = offset + off by omega]
  have hstuck : NpkContainer.framing.next (payload.drop (offset - 8)) = none →
      ∀ c, ¬ NpkContainer.framing.First NpkContainer.IsContent payload c := by
    intro hnext c hc
    exact Framing.not_first_of_next_none hnext c ((hiff c).mp hc)
  rw [containerRound, npkContainerHeaderSize]
  by_cases hmore : offset < 8 + payload.length
  · rw [if_pos hmore]
    by_cases hheader : 8 + payload.length - offset < 6
    · -- no room for a header
      rw [if_pos hheader]
      refine ⟨_, rfl, .of_rejected (by decide) (hstuck (NpkContainer.next_of_not_fits ?_))⟩
      omega
    · rw [if_neg hheader, readLe16_ok (by omega), readLe32_ok (by omega)]
      simp only [ok_bind, toNat_ofNat_slice_four]
      have hlength := hfield 2 4 (by omega)
      by_cases hfits : 6 + leNat (slice buffer (offset + 2) 4) > 8 + payload.length - offset
      · -- no room for the container
        rw [if_pos hfits]
        refine ⟨_, rfl, .of_rejected (by decide) (hstuck (NpkContainer.next_of_not_fits ?_))⟩
        rw [hlength]
        omega
      · rw [if_neg hfits]
        have hcontainer : 6 + leNat (slice (payload.drop (offset - 8)) 2 4)
            ≤ (payload.drop (offset - 8)).length := by
          rw [hlength]
          omega
        obtain ⟨c, hc, hid, hbytes, hlen⟩ := NpkContainer.next_of_fits hcontainer
        rw [hfield 0 2 (by omega), Nat.add_zero] at hid
        rw [hlength] at hbytes hlen
        rw [hfield 6 _ (by omega)] at hbytes
        rw [← hid, ← hlen]
        by_cases hcontent : c.IsContent
        · -- the content container
          have hid' : c.id = npkZlibCompressedData := hcontent
          rw [if_pos hid', loadSlice_ok (by omega), ← hbytes]
          refine ⟨_, rfl, by simp, fun x => ?_⟩
          simp only [hiff, Framing.first_iff_of_next hc hcontent, exists_eq_left,
            Except.ok.injEq]
        · -- some other container
          have hid' : ¬ c.id = npkZlibCompressedData := hcontent
          rw [if_neg hid']
          refine ⟨_, rfl, ⟨by omega, by omega, fun q => ?_⟩, by omega⟩
          rw [hiff q, Framing.first_iff_of_next_not hc hcontent, List.drop_drop,
            show offset - 8 + (NpkContainer.framing.bytes c).length =
              offset + (NpkContainer.framing.bytes c).length - 8 by omega]
  · -- the payload is used up
    rw [if_neg hmore]
    refine ⟨_, rfl, .of_rejected (by decide) (hstuck ?_)⟩
    rw [List.drop_eq_nil_iff.mpr (by omega)]
    exact Framing.next_nil

/-- The walk through the containers always ends, and inside the buffer. -/
theorem findContent_spec {buffer payload : List UInt8}
    (hpayload : payload = slice buffer 8 payload.length)
    (hbuffer : 8 + payload.length ≤ buffer.length) :
    ∃ res, loopFuel (containerRound buffer (8 + payload.length)) (8 + payload.length + 1) 8 =
        .ok res ∧ ContainersResult payload res :=
  loopFuel_total (fun _ hoff => containerRound_spec hpayload hbuffer hoff)
    ⟨Nat.le_refl _, by omega, fun c => by simp⟩ (by omega)

/-! ## A package of three records -/

theorem length_filler : (List.replicate 22 (0 : UInt8)).length = 22 := rfl

def sampleRecords : List NpkRecord :=
  [ { mode := 0x41ED, filler := List.replicate 22 0, name := [98], payload := []
      filler_length := length_filler, name_lt := by decide, payload_lt := by decide },
    { mode := 0x81A4, filler := List.replicate 22 0, name := [98, 47, 107], payload := [1, 2, 3]
      filler_length := length_filler, name_lt := by decide, payload_lt := by decide },
    { mode := 0x81A4, filler := List.replicate 22 0, name := [98, 47], payload := []
      filler_length := length_filler, name_lt := by decide, payload_lt := by decide } ]

def sampleBefore : List NpkContainer := [{ id := 1, payload := [7, 7], payload_lt := by decide }]

theorem length_encode_sampleRecords :
    (NpkRecord.framing.encode sampleRecords).length = 99 := rfl

def sampleContainer : NpkContainer where
  id := 4
  payload := storedStream 0 (NpkRecord.framing.encode sampleRecords)
  payload_lt := by rw [length_storedStream, length_encode_sampleRecords]; omega

theorem storedDecode_sampleContainer :
    storedDecode sampleContainer.payload = (NpkRecord.framing.encode sampleRecords, true) :=
  storedDecode_storedStream 0 (by rw [length_encode_sampleRecords]; omega)

theorem sampleContainer_within :
    (NpkRecord.framing.encode sampleRecords).length
      ≤ inflateLimit sampleContainer.payload.length := by
  have hlength : sampleContainer.payload.length = 110 := by
    rw [sampleContainer, length_storedStream, length_encode_sampleRecords]
  have hlimit : 2 ^ 32 ≤ inflateLimit 110 := inflateLimit_ge (by omega)
  rw [hlength, length_encode_sampleRecords]
  omega

theorem contentPayload_sample :
    ContentPayload (npkPack sampleBefore sampleContainer) sampleContainer.payload :=
  contentPayload_npkPack (by decide) rfl (by decide +kernel)

/-! ## The parser -/

section

variable {σ : Type} {z : Zlib σ} {decode : List UInt8 → List UInt8 × Bool}
  {At : List UInt8 → σ → List UInt8 → Nat → Prop} {rounds : Nat}

/-- A package of the records whose content is within the limit of the inflate
loop. -/
def NpkWithin (decode : List UInt8 → List UInt8 × Bool) (buffer content : List UInt8)
    (records : List NpkRecord) : Prop :=
  ∃ x, ContentPayload buffer x ∧ decode x = (content, true)
    ∧ content.length ≤ inflateLimit x.length ∧ NpkRecord.framing.encode records = content

theorem NpkWithin.unique {buffer content content' : List UInt8}
    {records records' : List NpkRecord} (h : NpkWithin decode buffer content records)
    (h' : NpkWithin decode buffer content' records') :
    content = content' ∧ records = records' := by
  obtain ⟨x, hx, hdecode, -, hrecords⟩ := h
  obtain ⟨x', hx', hdecode', -, hrecords'⟩ := h'
  obtain rfl := hx.unique hx'
  rw [hdecode] at hdecode'
  obtain ⟨rfl, -⟩ := Prod.mk.inj hdecode'
  exact ⟨rfl, Framing.encode_injective (hrecords.trans hrecords'.symm)⟩

/-- What the parser ends with, of which the package is only looked at after
success. -/
def ParseResult (decode : List UInt8 → List UInt8 × Bool) (buffer : List UInt8)
    (res : NpkStatus × NpkPackage) : Prop :=
  (res.1 = .ok → ∃ content records, NpkWithin decode buffer content records
      ∧ res.2.contentBuffer = content ∧ List.Forall₂ (EntryOf content) records res.2.entries)
    ∧ (res.1 ≠ .ok → ∀ content records, ¬ NpkWithin decode buffer content records)

theorem ParseResult.of_rejected {buffer : List UInt8} {status : NpkStatus}
    {package : NpkPackage} (hstatus : status ≠ .ok)
    (h : ∀ content records, ¬ NpkWithin decode buffer content records) :
    ParseResult decode buffer (status, package) :=
  ⟨fun hok => absurd hok hstatus, fun _ => h⟩

theorem npkFindAndInflateContent_spec (hz : z.Honours decode At)
    (halloc : ∀ n, alloc n = true) {buffer : List UInt8} (hlen : 8 ≤ buffer.length)
    (hmagic : leNat (slice buffer 0 4) = npkMagicBytes)
    (hrounds : ∀ x, ContentPayload buffer x → x.length + (decode x).1.length < rounds) :
    ∃ res, npkFindAndInflateContent z alloc rounds buffer buffer.length
        { contentBuffer := [], entries := [] } = .ok res
      ∧ ParseResult decode buffer res := by
  rw [npkFindAndInflateContent, readLe32_ok (by omega), npkHeaderSize]
  simp only [ok_bind, toNat_ofNat_slice_four]
  by_cases hfits : leNat (slice buffer 4 4) > buffer.length - 8
  · -- the payload is cut off
    rw [if_pos hfits]
    refine ⟨_, rfl, .of_rejected (by decide) ?_⟩
    rintro content records ⟨x, ⟨payload, c, hpayload, -⟩, -⟩
    obtain ⟨-, hle, -⟩ := (packagePayload_iff hlen).mp hpayload
    omega
  · rw [if_neg hfits]
    set payload := slice buffer 8 (leNat (slice buffer 4 4)) with hdef
    have hlength : payload.length = leNat (slice buffer 4 4) := length_slice (by omega)
    have hpayload : PackagePayload buffer payload :=
      (packagePayload_iff hlen).mpr ⟨hmagic, by omega, rfl⟩
    rw [← hlength] at hdef ⊢
    obtain ⟨found, hfound, hnotOk, hiff⟩ := findContent_spec hdef (by omega)
    have hcontent : ∀ x, ContentPayload buffer x ↔ found = .ok x := by
      intro x
      rw [hiff x]
      constructor
      · rintro ⟨payload', c, hpayload', hc, hx⟩
        obtain rfl := hpayload.unique hpayload'
        exact ⟨c, hc, hx⟩
      · rintro ⟨c, hc, hx⟩
        exact ⟨payload, c, hpayload, hc, hx⟩
    rw [hfound, ok_bind]
    cases found with
    | error status =>
        refine ⟨_, rfl, .of_rejected (fun h => hnotOk (by rw [h])) ?_⟩
        rintro content records ⟨x, hx, -⟩
        exact nomatch (hcontent x).mp hx
    | ok x =>
        have hx := (hcontent x).mpr rfl
        dsimp only
        rw [npkInflatePayload_spec hz halloc x (hrounds x hx), ok_bind, inflateResult]
        by_cases hends : (decode x).2 = true ∧ (decode x).1.length ≤ inflateLimit x.length
        · -- the content is out, and decides
          rw [if_pos hends]
          have hdecode : decode x = ((decode x).1, true) := Prod.ext rfl hends.1
          obtain ⟨res, hres, hok, herr⟩ := npkParseEntries_spec halloc (decode x).1
          refine ⟨res, hres, ?_, ?_⟩
          · intro hstatus
            obtain ⟨records, hrecords, hbuffer, hentries⟩ := hok hstatus
            exact ⟨(decode x).1, records, ⟨x, hx, hdecode, hends.2, hrecords⟩, hbuffer, hentries⟩
          · rintro hstatus content records ⟨x', hx', hdecode', -, hrecords⟩
            obtain rfl := hx.unique hx'
            rw [hdecode] at hdecode'
            obtain ⟨rfl, -⟩ := Prod.mk.inj hdecode'
            exact herr hstatus records hrecords
        · -- the content does not come out
          rw [if_neg hends]
          refine ⟨_, rfl, .of_rejected (by decide) ?_⟩
          rintro content records ⟨x', hx', hdecode', hlimit, -⟩
          obtain rfl := hx.unique hx'
          rw [hdecode'] at hends
          exact hends ⟨rfl, hlimit⟩

/-- What the parser says about a buffer, when the packages it accepts are the
`P content records`. -/
structure ParsedAs (P : List UInt8 → List NpkRecord → Prop) (status : NpkStatus)
    (out : Option NpkPackage) : Prop where
  accepts : status = .ok ↔ ∃ content records, P content records
  entries : ∀ content records, P content records →
    ∃ package, out = some package ∧ package.contentBuffer = content
      ∧ List.Forall₂ (EntryOf content) records package.entries
  rejects : status ≠ .ok → out = none

theorem ParsedAs.of_rejected {P : List UInt8 → List NpkRecord → Prop} {status : NpkStatus}
    (hstatus : status ≠ .ok) (hnone : ∀ content records, ¬ P content records) :
    ParsedAs P status none where
  accepts := by simp [hstatus, hnone]
  entries content records h := absurd h (hnone content records)
  rejects _ := rfl

/-- The parser on any buffer: it ends, without leaving the buffer or the
content. -/
theorem npkParseBuffer_spec (hz : z.Honours decode At) (halloc : ∀ n, alloc n = true)
    {buffer : List UInt8} (slot : Option NpkPackage)
    (hrounds : ∀ x, ContentPayload buffer x → x.length + (decode x).1.length < rounds) :
    ∃ status out,
      npkParseBuffer z alloc rounds (some buffer) buffer.length (some slot) =
        .ok (status, some out)
      ∧ ParsedAs (NpkWithin decode buffer) status out := by
  unfold npkParseBuffer
  dsimp only [Option.map_some]
  by_cases hlen : buffer.length < 8
  · rw [npkHeaderSize, if_pos hlen]
    refine ⟨_, none, rfl, .of_rejected (by decide) ?_⟩
    rintro content records ⟨x, ⟨payload, c, hpayload, -⟩, -⟩
    exact not_packagePayload_of_short hlen hpayload
  · rw [npkHeaderSize, if_neg hlen, readLe32_ok (by omega), ok_bind, toNat_ofNat_slice_four]
    by_cases hmagic : leNat (slice buffer 0 4) = npkMagicBytes
    · rw [if_neg (not_not.mpr hmagic), if_neg (by simp [halloc])]
      obtain ⟨⟨status, package⟩, hrun, hok, herr⟩ :=
        npkFindAndInflateContent_spec hz halloc (by omega) hmagic hrounds
      rw [hrun, ok_bind]
      dsimp only at hok herr ⊢
      by_cases hstatus : status = .ok
      · rw [if_neg (not_not.mpr hstatus)]
        obtain ⟨content, records, hwithin, hbuffer, hentries⟩ := hok hstatus
        refine ⟨.ok, some package, rfl, ?_, ?_, fun h => absurd rfl h⟩
        · exact iff_of_true rfl ⟨content, records, hwithin⟩
        · intro content' records' hwithin'
          obtain ⟨rfl, rfl⟩ := hwithin.unique hwithin'
          exact ⟨package, rfl, hbuffer, hentries⟩
      · rw [if_pos hstatus]
        exact ⟨status, none, rfl, .of_rejected hstatus (herr hstatus)⟩
    · rw [if_pos hmagic]
      refine ⟨_, none, rfl, .of_rejected (by decide) ?_⟩
      rintro content records ⟨x, ⟨payload, c, hpayload, -⟩, -⟩
      exact hmagic ((packagePayload_iff (by omega)).mp hpayload).1

/-- The parser accepts exactly the packages, when every content that inflates
is within what the 32-bit `avail_out` lets through. With enough calls of
`inflate` it ends, and it never leaves the buffer or the content. -/
theorem npkParseBuffer_accepts_iff (hz : z.Honours decode At)
    (halloc : ∀ n, alloc n = true) (buffer : List UInt8) (slot : Option NpkPackage)
    (hsmall : ∀ x content, ContentPayload buffer x → decode x = (content, true) →
      content.length ≤ inflateLimit x.length) :
    ∃ enough, ∀ rounds ≥ enough, ∃ status out,
      npkParseBuffer z alloc rounds (some buffer) buffer.length (some slot) =
        .ok (status, some out)
      ∧ ParsedAs (NpkGrammar decode buffer) status out := by
  have hwithin : NpkWithin decode buffer = NpkGrammar decode buffer := by
    funext content records
    refine propext ⟨?_, ?_⟩
    · rintro ⟨x, hx, hdecode, -, hrecords⟩
      exact ⟨x, hx, hdecode, hrecords⟩
    · rintro ⟨x, hx, hdecode, hrecords⟩
      exact ⟨x, hx, hdecode, hsmall x content hx hdecode, hrecords⟩
  have henough : ∃ enough, ∀ x, ContentPayload buffer x →
      x.length + (decode x).1.length < enough := by
    by_cases hex : ∃ x, ContentPayload buffer x
    · obtain ⟨x, hx⟩ := hex
      refine ⟨x.length + (decode x).1.length + 1, fun x' hx' => ?_⟩
      rw [hx.unique hx']
      exact Nat.lt_succ_self _
    · exact ⟨0, fun x hx => absurd ⟨x, hx⟩ hex⟩
  obtain ⟨enough, hlt⟩ := henough
  refine ⟨enough, fun rounds hrounds => ?_⟩
  rw [← hwithin]
  exact npkParseBuffer_spec hz halloc slot fun x hx => Nat.lt_of_lt_of_le (hlt x hx) hrounds

theorem npkParseBuffer_accepts_iff_sample :
    ∃ enough, ∀ rounds ≥ enough, ∃ status out,
      npkParseBuffer (Zlib.buffered storedDecode) (fun _ => true) rounds
          (some (npkPack sampleBefore sampleContainer))
          (npkPack sampleBefore sampleContainer).length (some none) =
        .ok (status, some out)
      ∧ ParsedAs (NpkGrammar storedDecode (npkPack sampleBefore sampleContainer)) status out := by
  refine npkParseBuffer_accepts_iff (Zlib.buffered_honours storedDecode) (fun _ => rfl) _ none ?_
  intro x content hx hdecode
  obtain rfl := contentPayload_sample.unique hx
  rw [storedDecode_sampleContainer] at hdecode
  obtain ⟨rfl, -⟩ := Prod.mk.inj hdecode
  exact sampleContainer_within

end

end Ccr2004
