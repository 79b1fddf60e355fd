import Ccr2004.NpkParse

/-!
# Extracting what was packed

`extracted` is what a list of records has under a name: the first record with
that name decides. `extractEntry_spec` finds the same in the entries of the
records, so a package unpacks to its records when it is parsed.

It is parsed when its content is within `inflateLimit`. Past 4 GiB of
capacity the 32-bit `avail_out` of the inflate loop is cut off, and runs dry
while there is output left: for a content container of 1 GiB it is zero from
the start, so no content comes out of it at all.
-/

namespace Ccr2004

/-- `S_ISREG`. -/
def NpkRecord.IsFile (r : NpkRecord) : Prop := r.mode &&& 0xF000 = 0x8000

instance : DecidablePred NpkRecord.IsFile := fun r =>
  inferInstanceAs (Decidable (r.mode &&& 0xF000 = 0x8000))

theorem npkEntryTypeFromMode_eq_file {mode : UInt16} :
    npkEntryTypeFromMode mode = .file ↔ mode &&& 0xF000 = 0x8000 := by
  rw [npkEntryTypeFromMode]
  by_cases hdir : mode &&& 0xF000 = 0x4000
  · rw [if_pos hdir, hdir]
    decide
  · rw [if_neg hdir]
    by_cases hfile : mode &&& 0xF000 = 0x8000
    · simp [hfile]
    · simp [hfile]

/-- What records have under a name: a status, the payload and its length. Only
the first record with that name counts, and an empty payload is a null
pointer. -/
def extracted (records : List NpkRecord) (filename : List UInt8) :
    NpkStatus × Option (List UInt8) × Nat :=
  match records.find? (·.name = filename) with
  | none => (.notFound, none, 0)
  | some r =>
      if r.IsFile then
        (.ok, if r.payload = [] then none else some r.payload, r.payload.length)
      else (.notAFile, none, 0)

theorem extracted_cons_of_ne {r : NpkRecord} {records : List NpkRecord}
    {filename : List UInt8} (h : r.name ≠ filename) :
    extracted (r :: records) filename = extracted records filename := by
  rw [extracted, extracted, List.find?_cons_of_neg (by simpa using h)]

theorem extracted_cons_of_eq {r : NpkRecord} {records : List NpkRecord}
    {filename : List UInt8} (h : r.name = filename) :
    extracted (r :: records) filename =
      if r.IsFile then
        (.ok, if r.payload = [] then none else some r.payload, r.payload.length)
      else (.notAFile, none, 0) := by
  rw [extracted, List.find?_cons_of_pos (by simpa using h)]

section

variable {alloc : Nat → Bool}

/-- The search through the entries of records. -/
theorem extractEntry_spec (halloc : ∀ n, alloc n = true) {package : NpkPackage}
    {records : List NpkRecord} {entries : List NpkEntry}
    (hentries : List.Forall₂ (EntryOf package.contentBuffer) records entries)
    (hnames : ∀ r ∈ records, ∀ b ∈ r.name, b ≠ 0) {filename : List UInt8}
    (hfilename : ∀ b ∈ filename, b ≠ 0) :
    extractEntry alloc package (filename ++ [0]) entries = .ok (extracted records filename) := by
  induction hentries with
  | nil => rfl
  | @cons r e records entries he _ ih =>
      obtain ⟨v, hv, hzero⟩ := strCmp_spec (hnames r (List.mem_cons_self ..)) hfilename
      rw [extractEntry, he.name, hv, ok_bind]
      by_cases hname : r.name = filename
      · rw [if_neg (not_not.mpr (hzero.mpr hname)), extracted_cons_of_eq hname, he.type]
        by_cases hfile : r.IsFile
        · rw [if_neg (not_not.mpr (npkEntryTypeFromMode_eq_file.mpr hfile)), if_pos hfile]
          have hsize : e.size = 0 ↔ r.payload = [] := by
            rw [← List.length_eq_zero_iff, ← he.size, ← UInt32.toNat_inj]
            rfl
          by_cases hempty : r.payload = []
          · rw [if_pos (hsize.mpr hempty), if_pos hempty, hempty]
            rfl
          · rw [if_neg fun h => hempty (hsize.mp h), if_neg hempty, if_neg (by simp [halloc]),
              loadSlice_ok he.inside, he.data, he.size]
            rfl
        · rw [if_pos fun h => hfile (npkEntryTypeFromMode_eq_file.mp h), if_neg hfile]
      · rw [if_pos fun h => hname (hzero.mp h), extracted_cons_of_ne hname]
        exact ih fun q hq => hnames q (List.mem_cons_of_mem _ hq)

end

/-! ## Packages -/

section

variable {σ : Type} {z : Zlib σ} {alloc : Nat → Bool}
  {decode : List UInt8 → List UInt8 × Bool} {At : List UInt8 → σ → List UInt8 → Nat → Prop}
  {records : List NpkRecord} {before : List NpkContainer} {c : NpkContainer}

/-- A buffer unpacks to records: it is parsed, and every name extracts what
the records have under it. -/
def Unpacks (z : Zlib σ) (alloc : Nat → Bool) (rounds : Nat) (buffer : List UInt8)
    (slot : Option NpkPackage) (records : List NpkRecord) : Prop :=
  ∃ package,
    npkParseBuffer z alloc rounds (some buffer) buffer.length (some slot) =
      .ok (.ok, some (some package))
    ∧ ∀ filename : List UInt8, (∀ b ∈ filename, b ≠ 0) →
        npkExtractFile alloc (some package) (some (filename ++ [0])) =
          .ok (extracted records filename)

/-- What a packed buffer is a package of, within the limit. -/
theorem npkWithin_npkPack_iff (hbefore : ∀ q ∈ before, ¬ q.IsContent) (hc : c.IsContent)
    (hlen : (NpkContainer.framing.encode (before ++ [c])).length < 2 ^ 32)
    (hdecode : decode c.payload = (NpkRecord.framing.encode records, true)) :
    (∃ content records', NpkWithin decode (npkPack before c) content records') ↔
      (NpkRecord.framing.encode records).length ≤ inflateLimit c.payload.length := by
  have hcontent := contentPayload_npkPack hbefore hc hlen
  constructor
  · rintro ⟨content, records', x, hx, hdecode', hlimit, -⟩
    obtain rfl := hcontent.unique hx
    rw [hdecode] at hdecode'
    obtain ⟨rfl, -⟩ := Prod.mk.inj hdecode'
    exact hlimit
  · intro hlimit
    exact ⟨_, records, c.payload, hcontent, hdecode, hlimit, rfl⟩

/-- Parsing what was packed: it ends, and succeeds with the entries of the
records within the limit, and only there. -/
theorem npkParseBuffer_npkPack (hz : z.Honours decode At) (halloc : ∀ n, alloc n = true)
    (hbefore : ∀ q ∈ before, ¬ q.IsContent) (hc : c.IsContent)
    (hlen : (NpkContainer.framing.encode (before ++ [c])).length < 2 ^ 32)
    (hdecode : decode c.payload = (NpkRecord.framing.encode records, true))
    (slot : Option NpkPackage) :
    ∃ enough, ∀ rounds ≥ enough, ∃ status out,
      npkParseBuffer z alloc rounds (some (npkPack before c)) (npkPack before c).length
          (some slot) = .ok (status, some out)
      ∧ (status = .ok ↔
          (NpkRecord.framing.encode records).length ≤ inflateLimit c.payload.length)
      ∧ (status = .ok → ∃ package, out = some package
          ∧ List.Forall₂ (EntryOf package.contentBuffer) records package.entries)
      ∧ (status ≠ .ok → out = none) := by
  have hcontent := contentPayload_npkPack hbefore hc hlen
  refine ⟨c.payload.length + (decode c.payload).1.length + 1, fun rounds hrounds => ?_⟩
  have hsteps : ∀ x, ContentPayload (npkPack before c) x →
      x.length + (decode x).1.length < rounds := by
    intro x hx
    obtain rfl := hcontent.unique hx
    omega
  obtain ⟨status, out, hrun, hparsed⟩ := npkParseBuffer_spec hz halloc slot hsteps
  have hok : status = .ok ↔
      (NpkRecord.framing.encode records).length ≤ inflateLimit c.payload.length :=
    hparsed.accepts.trans (npkWithin_npkPack_iff hbefore hc hlen hdecode)
  refine ⟨status, out, hrun, hok, fun hstatus => ?_, hparsed.rejects⟩
  obtain ⟨package, hout, hbuffer, hentries⟩ := hparsed.entries _ records
    ⟨c.payload, hcontent, hdecode, hok.mp hstatus, rfl⟩
  rw [← hbuffer] at hentries
  exact ⟨package, hout, hentries⟩

/-- Extraction undoes packing exactly within the limit of the inflate loop. -/
theorem npkPack_unpacks_iff (hz : z.Honours decode At) (halloc : ∀ n, alloc n = true)
    (hnames : ∀ r ∈ records, ∀ b ∈ r.name, b ≠ 0) (hbefore : ∀ q ∈ before, ¬ q.IsContent)
    (hc : c.IsContent)
    (hlen : (NpkContainer.framing.encode (before ++ [c])).length < 2 ^ 32)
    (hdecode : decode c.payload = (NpkRecord.framing.encode records, true))
    (slot : Option NpkPackage) :
    ∃ enough, ∀ rounds ≥ enough,
      (Unpacks z alloc rounds (npkPack before c) slot records ↔
        (NpkRecord.framing.encode records).length ≤ inflateLimit c.payload.length) := by
  obtain ⟨enough, hparse⟩ :=
    npkParseBuffer_npkPack hz halloc hbefore hc hlen hdecode slot
  refine ⟨enough, fun rounds hrounds => ?_⟩
  obtain ⟨status, out, hrun, hiff, hok, -⟩ := hparse rounds hrounds
  rw [← hiff]
  constructor
  · rintro ⟨package, hrun', -⟩
    rw [hrun] at hrun'
    exact (Prod.mk.inj (Except.ok.inj hrun')).1
  · intro hstatus
    obtain ⟨package, rfl, hentries⟩ := hok hstatus
    subst hstatus
    exact ⟨package, hrun, fun filename hfilename =>
      extractEntry_spec halloc hentries hnames hfilename⟩

end

theorem npkPack_unpacks_iff_sample :
    ∃ enough, ∀ rounds ≥ enough,
      Unpacks (Zlib.buffered storedDecode) (fun _ => true) rounds
        (npkPack sampleBefore sampleContainer) none sampleRecords := by
  have hc : sampleContainer.IsContent := rfl
  have hbefore : ∀ q ∈ sampleBefore, ¬ q.IsContent := by decide
  have hlen : (NpkContainer.framing.encode (sampleBefore ++ [sampleContainer])).length
      < 2 ^ 32 := by decide +kernel
  obtain ⟨enough, hiff⟩ := npkPack_unpacks_iff (Zlib.buffered_honours storedDecode)
    (fun _ : Nat => rfl) (by decide +kernel) hbefore hc hlen storedDecode_sampleContainer none
  exact ⟨enough, fun rounds hrounds => (hiff rounds hrounds).mpr sampleContainer_within⟩

/-! ### A content container of 1 GiB -/

/-- A regular file `a` with two bytes. -/
def fileRecord : NpkRecord where
  mode := 0x81A4
  filler := List.replicate 22 0
  name := [97]
  payload := [104, 105]
  filler_length := length_filler
  name_lt := by decide
  payload_lt := by decide

theorem length_encode_fileRecord : (NpkRecord.framing.encode [fileRecord]).length = 33 := rfl

theorem length_giantStream :
    (storedStream 214748356 (NpkRecord.framing.encode [fileRecord])).length = 2 ^ 30 := by
  rw [length_storedStream, length_encode_fileRecord]
  norm_num

def giantContainer : NpkContainer where
  id := 4
  payload := storedStream 214748356 (NpkRecord.framing.encode [fileRecord])
  payload_lt := by rw [length_giantStream]; norm_num

theorem inflateLimit_giant : inflateLimit (2 ^ 30) = 0 := by
  rw [inflateLimit, firstCapacity]
  norm_num

/-- It inflates to the bytes of one record, and the parser rejects it. -/
theorem npkPack_unpacks_giant_fails :
    storedDecode giantContainer.payload = (NpkRecord.framing.encode [fileRecord], true)
      ∧ ∃ enough, ∀ rounds ≥ enough, ∃ status,
          npkParseBuffer (Zlib.buffered storedDecode) (fun _ => true) rounds
              (some (npkPack [] giantContainer)) (npkPack [] giantContainer).length
              (some none) = .ok (status, some none)
          ∧ status ≠ .ok
          ∧ ¬ Unpacks (Zlib.buffered storedDecode) (fun _ => true) rounds
              (npkPack [] giantContainer) none [fileRecord] := by
  have hdecode : storedDecode giantContainer.payload =
      (NpkRecord.framing.encode [fileRecord], true) :=
    storedDecode_storedStream _ (by rw [length_encode_fileRecord]; omega)
  have hpayload : giantContainer.payload.length = 2 ^ 30 := length_giantStream
  have hlen : (NpkContainer.framing.encode ([] ++ [giantContainer])).length < 2 ^ 32 := by
    rw [List.nil_append, Framing.encode_cons, Framing.encode_nil, List.append_nil]
    show giantContainer.bytes.length < 2 ^ 32
    rw [NpkContainer.length_bytes, hpayload]
    norm_num
  have hc : giantContainer.IsContent := rfl
  refine ⟨hdecode, ?_⟩
  obtain ⟨enough, hparse⟩ := npkParseBuffer_npkPack (Zlib.buffered_honours storedDecode)
    (fun _ : Nat => rfl) (by simp) hc hlen hdecode none
  refine ⟨enough, fun rounds hrounds => ?_⟩
  obtain ⟨status, out, hrun, hiff, -, hnone⟩ := hparse rounds hrounds
  have hstatus : status ≠ .ok := by
    rw [ne_eq, hiff, hpayload, inflateLimit_giant, length_encode_fileRecord]
    omega
  obtain rfl := hnone hstatus
  refine ⟨status, hrun, hstatus, ?_⟩
  rintro ⟨package, hrun', -⟩
  rw [hrun] at hrun'
  exact hstatus (Prod.mk.inj (Except.ok.inj hrun')).1

end Ccr2004
