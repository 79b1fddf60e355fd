import Ccr2004.Lockstep
import Ccr2004.YaffsScan

/-!
# The two-step read of a NAND page

`ReadTags` makes the chip load a page into its data register and outputs
the last 16 bytes; `ReadPageBody` outputs the register from its start, with
no page argument. `Scan.c` may call it only right after a `ReadTags` of the
page it takes the body for.

`yaffs2ScanNandWith` is the scan with its two calls of `ReadPageBody`
replaced by a read that is told the page. Two such scans run in lockstep as
soon as their reads agree after a `ReadTags` that answered with live tags
(`ReadsAlike`, `scanBlocksWith_lockstep`); on the chip of `AlNandDxe.c` the
call, a call guarded by the discipline, and `ReadPage` of the page all
do.
-/

namespace Ccr2004

/-! ## The chip -/

/-- A call of the NAND protocol; `loaded` says whether the chip loaded the
page into its register. -/
inductive NandAccess where
  | readPage (page : UInt32) (loaded : Bool)
  | readTags (page : UInt32) (loaded : Bool)
  | readPageBody
deriving Repr, DecidableEq

/-- The NAND chip behind `AL_NAND_CONTEXT`. `fails k` says that the HAL
reports an error for the `k`-th call; `noise` is what the register holds
before anything is loaded. -/
structure NandChip where
  pagesPerBlock : UInt32
  numBlocks : UInt32
  numPages : UInt32
  content : UInt32 → PageData
  badBlockMap : UInt32 → Bool
  fails : Nat → Bool
  noise : PageData
  pagesPerBlock_ne_zero : pagesPerBlock ≠ 0

/-- The page in the data register, and the calls so far, first to last. -/
structure ChipState where
  register : Option UInt32
  log : List NandAccess

namespace NandChip

variable (chip : NandChip)

/-- `AlNandIsBlockBad`. -/
def alNandIsBlockBad (block : UInt32) : Bool :=
  if block ≥ chip.numBlocks then true else chip.badBlockMap block

/-- Whether the HAL serves the next call. -/
def serves (s : ChipState) : Bool := !chip.fails s.log.length

/-- What a page register that holds this page outputs. -/
def output : Option UInt32 → PageData
  | none => chip.noise
  | some page => chip.content page

def alNandFlashReadPage (page : UInt32) (s : ChipState) :
    Except EfiStatus PageData × ChipState :=
  if page ≥ chip.numPages then
    (.error .invalidParameter, { s with log := s.log ++ [.readPage page false] })
  else if chip.alNandIsBlockBad (page / chip.pagesPerBlock) then
    (.ok (fun _ => 0xFF), { s with log := s.log ++ [.readPage page false] })
  else if chip.serves s then
    (.ok (chip.content page), ⟨some page, s.log ++ [.readPage page true]⟩)
  else (.error .deviceError, { s with log := s.log ++ [.readPage page false] })

def alNandFlashReadTags (page : UInt32) (s : ChipState) :
    Except EfiStatus RawTags × ChipState :=
  if page ≥ chip.numPages then
    (.error .invalidParameter, { s with log := s.log ++ [.readTags page false] })
  else if chip.alNandIsBlockBad (page / chip.pagesPerBlock) then
    (.ok ⟨0xFFFFFFFF, 0xFFFFFFFF, 0xFFFFFFFF, 0xFFFFFFFF⟩,
      { s with log := s.log ++ [.readTags page false] })
  else if chip.serves s then
    (.ok (chip.content page).inbandTags, ⟨some page, s.log ++ [.readTags page true]⟩)
  else (.error .deviceError, { s with log := s.log ++ [.readTags page false] })

/-- Re-output the register from column 0. -/
def alNandFlashReadPageBody (s : ChipState) : Except EfiStatus PageData × ChipState :=
  let s' := { s with log := s.log ++ [.readPageBody] }
  if chip.serves s then (.ok (chip.output s.register), s') else (.error .deviceError, s')

/-- `Ctx->NandFlash`. -/
def nandFlash : NandFlashProtocol ChipState where
  pagesPerBlock := chip.pagesPerBlock
  numBlocks := chip.numBlocks
  readPage := chip.alNandFlashReadPage
  readTags := chip.alNandFlashReadTags
  readPageBody := chip.alNandFlashReadPageBody

end NandChip

/-! ## The scan over a read that is told the page -/

section With

variable {σ : Type} (nand : NandFlashProtocol σ)
  (readBody : UInt32 → σ → Run (Except EfiStatus PageData × σ)) (pools : UInt32 → Pool)

/-- `readSummary` with `readBody` of the summary page for `ReadPageBody`. -/
def readSummaryWith (block : UInt32) (n : σ) :
    Run (Option (UInt32 × List SummaryEntry) × σ) :=
  let basePage := block * nand.pagesPerBlock
  let summaryPage := basePage + (nand.pagesPerBlock - 1)
  match nand.readTags summaryPage n with
  | (.error _, n) => .ok (none, n)
  | (.ok raw, n) =>
      if areTagsErased raw then .ok (none, n)
      else if !isSummaryPage raw then .ok (none, n)
      else do
        match ← readBody summaryPage n with
        | (.error _, n) => .ok (none, n)
        | (.ok body, n) => do
            match ← checkSummary nand.pagesPerBlock body with
            | none => .ok (none, n)
            | some blockSeq => do
                let entries ← copyEntries nand.pagesPerBlock body
                .ok (some (blockSeq, entries), n)

def scanBlockViaSummaryWith (block : UInt32) (st : ScanState σ) :
    Run (Bool × ScanState σ) := do
  match ← readSummaryWith nand readBody block st.nand with
  | (none, n) => .ok (false, st.device n)
  | (some (blockSeq, entries), n) => do
      let basePage := block * nand.pagesPerBlock
      let st ← forFrom (processEntry nand pools basePage blockSeq entries)
        entries.length 0 (st.device n)
      .ok (true, st.state)

/-- `scanPage` with `readBody` of the page for `ReadPageBody`. -/
def scanPageWith (basePage : UInt32) (pageInBlock : Nat) (st : ScanState σ) :
    Run (Flow (ScanState σ) (ScanState σ)) :=
  let page := basePage + UInt32.ofNat pageInBlock
  match nand.readTags page st.nand with
  | (.error _, n) => .ok (.exit (st.device n))
  | (.ok raw, n) =>
      let st := st.device n
      if areTagsErased raw then .ok (.exit st)
      else
        let tags := parseTagWords raw
        if !seqInRange tags.seqNumber then .ok (.next st)
        else if isPseudoObject tags.objId then .ok (.next st)
        else
          let st := { st with pageCount := st.pageCount + 1 }
          if tags.isHeader then do
            match ← readBody page st.nand with
            | (.error _, n) => .ok (.next (st.device n))
            | (.ok body, n) => do
                let st := { st.device n with headerCount := st.headerCount + 1 }
                let st ← st.hand pools (.header tags body page)
                .ok (.next st)
          else do
            let st ← st.hand pools (.chunk tags page)
            .ok (.next st)

def scanBlockPageByPageWith (block : UInt32) (st : ScanState σ) : Run (ScanState σ) := do
  let basePage := block * nand.pagesPerBlock
  let st ← forFrom (scanPageWith nand readBody pools basePage) nand.pagesPerBlock.toNat 0 st
  .ok st.state

def scanBlockWith (block : Nat) (st : ScanState σ) :
    Run (Flow (ScanState σ) (ScanState σ)) :=
  let block := UInt32.ofNat block
  let basePage := block * nand.pagesPerBlock
  match nand.readTags basePage st.nand with
  | (.error _, n) => .ok (.next (st.device n))
  | (.ok raw, n) =>
      if areTagsErased raw then .ok (.next (st.device n))
      else do
        let (done, st) ← scanBlockViaSummaryWith nand readBody pools block (st.device n)
        if done then .ok (.next st)
        else do
          let st ← scanBlockPageByPageWith nand readBody pools block st
          .ok (.next st)

def scanBlocksWith (st : ScanState σ) : Run (ScanState σ) := do
  let st ← forFrom (scanBlockWith nand readBody pools) nand.numBlocks.toNat 0 st
  .ok st.state

/-- `yaffs2ScanNand` with `readBody` of the page for `ReadPageBody`. -/
def yaffs2ScanNandWith (n : σ) : Run (EfiStatus × Yaffs2Volume) := do
  let st ← scanBlocksWith nand readBody pools ⟨n, .empty, 0, 0, []⟩
  let vol ← buildTree loopLimit st.volume
  match vol.root with
  | none => .ok (.volumeCorrupted, vol)
  | some root => do
      match ← vol.slot root with
      | none => .error .nullDeref
      | some obj =>
          if obj.type = yaffs2TypeDir then .ok (.success, vol)
          else .ok (.volumeCorrupted, vol)

end With

/-- `ReadPageBody`, whatever the page. -/
def NandFlashProtocol.bodyOfRegister {σ : Type} (nand : NandFlashProtocol σ)
    (_page : UInt32) (n : σ) : Run (Except EfiStatus PageData × σ) :=
  .ok (nand.readPageBody n)

theorem scanBlocksWith_register {σ : Type} (nand : NandFlashProtocol σ)
    (pools : UInt32 → Pool) (st : ScanState σ) :
    scanBlocksWith nand nand.bodyOfRegister pools st = scanBlocks nand pools st := rfl

theorem yaffs2ScanNandWith_register {σ : Type} (nand : NandFlashProtocol σ)
    (pools : UInt32 → Pool) (n : σ) :
    yaffs2ScanNandWith nand nand.bodyOfRegister pools n = yaffs2ScanNand nand pools n := rfl

/-! ## Two scans in lockstep -/

/-- What `Good` says of a page and the body read for it, said of a header
call. -/
def PageCall.BodyGood (Good : UInt32 → PageData → Prop) : PageCall → Prop
  | .header _ body page => Good page body
  | .chunk _ _ => True

section Lockstep

variable {σ : Type} {nand : NandFlashProtocol σ}
  {readBody readBody' : UInt32 → σ → Run (Except EfiStatus PageData × σ)}
  {R : σ → σ → Prop} {Loaded : UInt32 → σ → σ → Prop} {Good : UInt32 → PageData → Prop}
  {pools : UInt32 → Pool}

/-- Two ways of reading a body that a scan cannot tell apart: on related
devices the other reads agree, and after a `ReadTags` that answered with
live tags so do they. -/
structure ReadsAlike (nand : NandFlashProtocol σ)
    (readBody readBody' : UInt32 → σ → Run (Except EfiStatus PageData × σ))
    (R : σ → σ → Prop) (Loaded : UInt32 → σ → σ → Prop)
    (Good : UInt32 → PageData → Prop) : Prop where
  readPage : ∀ page {s s' : σ}, R s s' →
    Answers R (fun body _ _ => Good page body) (nand.readPage page s) (nand.readPage page s')
  readTags : ∀ page {s s' : σ}, R s s' →
    Answers R (fun raw t t' => areTagsErased raw = false → Loaded page t t')
      (nand.readTags page s) (nand.readTags page s')
  readBody : ∀ page {s s' : σ}, Loaded page s s' →
    Lockstep (Answers R fun body _ _ => Good page body) (readBody page s) (readBody' page s')

/-- Scans that differ in the device alone, with good bodies handed over. -/
inductive SameScan (R : σ → σ → Prop) (Good : UInt32 → PageData → Prop) :
    ScanState σ → ScanState σ → Prop
  | mk {n n' : σ} {vol : Yaffs2Volume} {pageCount headerCount : UInt32}
      {handed : List PageCall} (hR : R n n')
      (hgood : ∀ call ∈ handed, call.BodyGood Good) :
      SameScan R Good ⟨n, vol, pageCount, headerCount, handed⟩
        ⟨n', vol, pageCount, headerCount, handed⟩

/-- The scans of a volume just allocated. -/
theorem SameScan.start {n n' : σ} (hR : R n n') :
    SameScan R Good ⟨n, .empty, 0, 0, []⟩ ⟨n', .empty, 0, 0, []⟩ :=
  .mk hR fun _ hc => absurd hc List.not_mem_nil

theorem SameScan.device {st st' : ScanState σ} (h : SameScan R Good st st') {n n' : σ}
    (hR : R n n') : SameScan R Good (st.device n) (st'.device n') := by
  cases h with
  | mk _ hgood => exact .mk hR hgood

theorem SameScan.hand {st st' : ScanState σ} (h : SameScan R Good st st')
    {call : PageCall} (hcall : call.BodyGood Good) :
    Lockstep (SameScan R Good) (st.hand pools call) (st'.hand pools call) := by
  cases h with
  | mk hR hgood =>
      refine (Lockstep.refl (fun _ => rfl) (call.apply (pools call.page) _)).bind ?_
      rintro vol _ rfl
      refine .ok (.mk hR fun c hc => ?_)
      rcases List.mem_append.mp hc with hold | hnew
      · exact hgood c hold
      · rw [List.mem_singleton.mp hnew]
        exact hcall

/-- The rest of a round, once its page is handed over. -/
theorem SameScan.hand_next {st st' : ScanState σ} (h : SameScan R Good st st')
    {call : PageCall} (hcall : call.BodyGood Good) :
    Lockstep (Flow.Related (SameScan R Good) (SameScan R Good))
      (st.hand pools call >>= fun st => .ok (.next st))
      (st'.hand pools call >>= fun st => .ok (.next st)) :=
  (h.hand hcall).bind fun _ _ hst => .ok (.next hst)

theorem processEntry_lockstep (hreads : ReadsAlike nand readBody readBody' R Loaded Good)
    (basePage blockSeq : UInt32) (entries : List SummaryEntry) (i : Nat)
    {st st' : ScanState σ} (h : SameScan R Good st st') :
    Lockstep (Flow.Related (SameScan R Good) (SameScan R Good))
      (processEntry nand pools basePage blockSeq entries i st)
      (processEntry nand pools basePage blockSeq entries i st') := by
  rw [processEntry, processEntry]
  cases entries[i]? with
  | none => exact .error _
  | some e =>
      dsimp only
      by_cases hpseudo : isPseudoObject (unpackEntry blockSeq e).objId = true
      · rw [if_pos hpseudo, if_pos hpseudo]
        exact .ok (.next h)
      · rw [if_neg hpseudo, if_neg hpseudo]
        cases h with
        | mk hR hgood =>
            by_cases hheader : (unpackEntry blockSeq e).isHeader = true
            · rw [if_pos hheader, if_pos hheader]
              rcases (hreads.readPage (basePage + UInt32.ofNat i) hR).outcome with
                ⟨_, _, _, hx, hy, hR'⟩ | ⟨_, _, _, hx, hy, hR', hbody⟩
              · rw [hx, hy]
                exact .ok (.next (.mk hR' hgood))
              · rw [hx, hy]
                exact SameScan.hand_next (.mk hR' hgood) hbody
            · rw [if_neg hheader, if_neg hheader]
              exact SameScan.hand_next (.mk hR hgood) trivial

/-- The two summaries read are the same, and the devices are related. -/
theorem readSummaryWith_lockstep (hreads : ReadsAlike nand readBody readBody' R Loaded Good)
    (block : UInt32) {n n' : σ} (hR : R n n') :
    Lockstep (fun x y => x.1 = y.1 ∧ R x.2 y.2) (readSummaryWith nand readBody block n)
      (readSummaryWith nand readBody' block n') := by
  unfold readSummaryWith
  dsimp only
  rcases (hreads.readTags
      (block * nand.pagesPerBlock + (nand.pagesPerBlock - 1)) hR).outcome with
    ⟨_, _, _, hx, hy, hR'⟩ | ⟨raw, _, _, hx, hy, hR', hloaded⟩
  · rw [hx, hy]
    exact .ok ⟨rfl, hR'⟩
  · rw [hx, hy]
    dsimp only
    by_cases herased : areTagsErased raw = true
    · rw [if_pos herased, if_pos herased]
      exact .ok ⟨rfl, hR'⟩
    · rw [if_neg herased, if_neg herased]
      by_cases hsummary : (!isSummaryPage raw) = true
      · rw [if_pos hsummary, if_pos hsummary]
        exact .ok ⟨rfl, hR'⟩
      · rw [if_neg hsummary, if_neg hsummary]
        refine (hreads.readBody _ (hloaded (by simpa using herased))).bind ?_
        rintro _ _ (⟨_, hR''⟩ | ⟨hR'', -⟩)
        · exact .ok ⟨rfl, hR''⟩
        · -- the checks and the copy see the same body in both
          refine (Lockstep.refl (fun _ => rfl) _).bind ?_
          rintro seq _ rfl
          cases seq with
          | none => exact .ok ⟨rfl, hR''⟩
          | some blockSeq =>
              refine (Lockstep.refl (fun _ => rfl) _).bind ?_
              rintro entries _ rfl
              exact .ok ⟨rfl, hR''⟩

theorem scanBlockViaSummaryWith_lockstep
    (hreads : ReadsAlike nand readBody readBody' R Loaded Good) (block : UInt32)
    {st st' : ScanState σ} (h : SameScan R Good st st') :
    Lockstep (fun x y => x.1 = y.1 ∧ SameScan R Good x.2 y.2)
      (scanBlockViaSummaryWith nand readBody pools block st)
      (scanBlockViaSummaryWith nand readBody' pools block st') := by
  have hR : R st.nand st'.nand := by
    cases h with
    | mk hR _ => exact hR
  refine (readSummaryWith_lockstep hreads block hR).bind ?_
  rintro ⟨summary, n⟩ ⟨_, n'⟩ ⟨rfl, hR'⟩
  cases summary with
  | none => exact .ok ⟨rfl, h.device hR'⟩
  | some summary =>
      obtain ⟨blockSeq, entries⟩ := summary
      refine (forFrom_lockstep (fun i _ _ hst => processEntry_lockstep hreads _ _ _ i hst)
        _ (h.device hR')).bind fun c c' hc => ?_
      exact .ok ⟨rfl, hc.state⟩

theorem scanPageWith_lockstep (hreads : ReadsAlike nand readBody readBody' R Loaded Good)
    (basePage : UInt32) (pageInBlock : Nat) {st st' : ScanState σ}
    (h : SameScan R Good st st') :
    Lockstep (Flow.Related (SameScan R Good) (SameScan R Good))
      (scanPageWith nand readBody pools basePage pageInBlock st)
      (scanPageWith nand readBody' pools basePage pageInBlock st') := by
  cases h with
  | mk hR hgood =>
      rw [scanPageWith, scanPageWith]
      dsimp only
      rcases (hreads.readTags (basePage + UInt32.ofNat pageInBlock) hR).outcome with
        ⟨_, _, _, hx, hy, hR'⟩ | ⟨raw, _, _, hx, hy, hR', hloaded⟩
      · rw [hx, hy]
        exact .ok (.exit (.mk hR' hgood))
      · rw [hx, hy]
        dsimp only
        by_cases herased : areTagsErased raw = true
        · rw [if_pos herased, if_pos herased]
          exact .ok (.exit (.mk hR' hgood))
        · rw [if_neg herased, if_neg herased]
          by_cases hseq : (!seqInRange (parseTagWords raw).seqNumber) = true
          · rw [if_pos hseq, if_pos hseq]
            exact .ok (.next (.mk hR' hgood))
          · rw [if_neg hseq, if_neg hseq]
            by_cases hpseudo : isPseudoObject (parseTagWords raw).objId = true
            · rw [if_pos hpseudo, if_pos hpseudo]
              exact .ok (.next (.mk hR' hgood))
            · rw [if_neg hpseudo, if_neg hpseudo]
              by_cases hheader : (parseTagWords raw).isHeader = true
              · -- no call stands between this read and the ReadTags
                rw [if_pos hheader, if_pos hheader]
                refine (hreads.readBody _ (hloaded (by simpa using herased))).bind ?_
                rintro _ _ (⟨_, hR''⟩ | ⟨hR'', hbody⟩)
                · exact .ok (.next (.mk hR'' hgood))
                · exact SameScan.hand_next (.mk hR'' hgood) hbody
              · rw [if_neg hheader, if_neg hheader]
                exact SameScan.hand_next (.mk hR' hgood) trivial

theorem scanBlockWith_lockstep (hreads : ReadsAlike nand readBody readBody' R Loaded Good)
    (block : Nat) {st st' : ScanState σ} (h : SameScan R Good st st') :
    Lockstep (Flow.Related (SameScan R Good) (SameScan R Good))
      (scanBlockWith nand readBody pools block st)
      (scanBlockWith nand readBody' pools block st') := by
  have hR : R st.nand st'.nand := by
    cases h with
    | mk hR _ => exact hR
  rw [scanBlockWith, scanBlockWith]
  dsimp only
  rcases (hreads.readTags (UInt32.ofNat block * nand.pagesPerBlock) hR).outcome with
    ⟨_, _, _, hx, hy, hR'⟩ | ⟨raw, _, _, hx, hy, hR', -⟩
  · rw [hx, hy]
    exact .ok (.next (h.device hR'))
  · rw [hx, hy]
    dsimp only
    by_cases herased : areTagsErased raw = true
    · rw [if_pos herased, if_pos herased]
      exact .ok (.next (h.device hR'))
    · rw [if_neg herased, if_neg herased]
      refine (scanBlockViaSummaryWith_lockstep hreads _ (h.device hR')).bind ?_
      rintro ⟨done, st₁⟩ ⟨_, st₁'⟩ ⟨rfl, hst⟩
      cases done with
      | true => exact .ok (.next hst)
      | false =>
          refine Lockstep.bind (R := SameScan R Good) ?_ fun _ _ h₂ => .ok (.next h₂)
          exact (forFrom_lockstep
            (fun i _ _ hst => scanPageWith_lockstep hreads _ i hst) _ hst).bind
            fun _ _ hc => .ok hc.state

/-- Scans over two such reads stay in lockstep through the whole block
loop. -/
theorem scanBlocksWith_lockstep (hreads : ReadsAlike nand readBody readBody' R Loaded Good)
    {st st' : ScanState σ} (h : SameScan R Good st st') :
    Lockstep (SameScan R Good) (scanBlocksWith nand readBody pools st)
      (scanBlocksWith nand readBody' pools st') :=
  (forFrom_lockstep (fun block _ _ hst => scanBlockWith_lockstep hreads block hst) _ h).bind
    fun _ _ hc => .ok hc.state

/-- Such scans of the whole volume have one result. -/
theorem yaffs2ScanNandWith_eq (hreads : ReadsAlike nand readBody readBody' R Loaded Good)
    {n n' : σ} (hR : R n n') :
    yaffs2ScanNandWith nand readBody pools n = yaffs2ScanNandWith nand readBody' pools n' := by
  apply Lockstep.eq
  refine (scanBlocksWith_lockstep hreads (.start hR)).bind fun st st' hst => ?_
  cases hst with
  | mk _ _ => exact Lockstep.refl (fun _ => rfl) _

end Lockstep

/-! ## The discipline on the chip -/

/-- Every `ReadPageBody` comes right after a `ReadTags` that loaded its
page. -/
def Disciplined (log : List NandAccess) : Prop :=
  ∀ pre post, log = pre ++ .readPageBody :: post →
    ∃ page, pre.getLast? = some (.readTags page true)

theorem Disciplined.nil : Disciplined [] := by
  intro pre post h
  simp at h

theorem Disciplined.snoc {log : List NandAccess} {a : NandAccess} (h : Disciplined log)
    (ha : a = .readPageBody → ∃ page, log.getLast? = some (.readTags page true)) :
    Disciplined (log ++ [a]) := by
  intro pre post heq
  rcases List.eq_nil_or_concat post with rfl | ⟨post, b, rfl⟩
  · obtain ⟨rfl, hlast⟩ := List.append_inj' heq rfl
    exact ha (List.singleton_inj.mp hlast)
  · rw [List.concat_eq_append, ← List.cons_append, ← List.append_assoc] at heq
    obtain ⟨hinit, -⟩ := List.append_inj' heq rfl
    exact h pre post hinit

namespace NandChip

variable (chip : NandChip)

/-- A page the chip can load. -/
def Loadable (page : UInt32) : Prop :=
  page < chip.numPages ∧ chip.alNandIsBlockBad (page / chip.pagesPerBlock) = false

/-- What `ReadPage` outputs for a page, when it outputs anything. -/
def view (page : UInt32) : PageData :=
  if chip.alNandIsBlockBad (page / chip.pagesPerBlock) then fun _ => 0xFF
  else chip.content page

/-- The last call was a `ReadTags` that loaded this page. -/
structure JustLoaded (page : UInt32) (s : ChipState) : Prop where
  loadable : chip.Loadable page
  register : s.register = some page
  last : s.log.getLast? = some (.readTags page true)

/-- `ReadPageBody` under a check of the discipline: the call before it is a
`ReadTags` that loaded the page. -/
def guardedBody (e : Fault) (page : UInt32) (s : ChipState) :
    Run (Except EfiStatus PageData × ChipState) :=
  if s.log.getLast? = some (.readTags page true) then .ok (chip.alNandFlashReadPageBody s)
  else .error e

/-- `ReadPage` of the page, in the place of `ReadPageBody`. -/
def bodyOfPage (page : UInt32) (s : ChipState) :
    Run (Except EfiStatus PageData × ChipState) :=
  .ok (chip.alNandFlashReadPage page s)

/-- Tags that are not erased come from a page just loaded: a bad block
answers with erased tags. -/
theorem justLoaded_of_readTags {page : UInt32} {s t : ChipState} {raw : RawTags}
    (h : chip.alNandFlashReadTags page s = (.ok raw, t)) (hlive : areTagsErased raw = false) :
    chip.JustLoaded page t := by
  rw [alNandFlashReadTags] at h
  by_cases hrange : page ≥ chip.numPages
  · rw [if_pos hrange] at h
    cases h
  · rw [if_neg hrange] at h
    by_cases hbad : chip.alNandIsBlockBad (page / chip.pagesPerBlock) = true
    · rw [if_pos hbad] at h
      cases h
      exact absurd hlive (by decide)
    · rw [if_neg hbad] at h
      by_cases hserves : chip.serves s = true
      · rw [if_pos hserves] at h
        cases h
        exact ⟨⟨by simpa using hrange, by simpa using hbad⟩, rfl, List.getLast?_concat⟩
      · rw [if_neg hserves] at h
        cases h

theorem readTags_log (page : UInt32) (s : ChipState) :
    ∃ loaded, (chip.alNandFlashReadTags page s).2.log = s.log ++ [.readTags page loaded] := by
  rw [alNandFlashReadTags]
  repeat' split
  all_goals exact ⟨_, rfl⟩

theorem readPage_log (page : UInt32) (s : ChipState) :
    ∃ loaded, (chip.alNandFlashReadPage page s).2.log = s.log ++ [.readPage page loaded] := by
  rw [alNandFlashReadPage]
  repeat' split
  all_goals exact ⟨_, rfl⟩

theorem view_of_readPage {page : UInt32} {s t : ChipState} {body : PageData}
    (h : chip.alNandFlashReadPage page s = (.ok body, t)) : body = chip.view page := by
  rw [alNandFlashReadPage] at h
  rw [view]
  split at h
  · cases h
  · split at h
    · cases h
      rw [if_pos ‹_›]
    · split at h
      · cases h
        rw [if_neg ‹_›]
      · cases h

theorem view_of_loadable {page : UInt32} (h : chip.Loadable page) :
    chip.view page = chip.content page := by
  rw [view, h.2, if_neg Bool.false_ne_true]

/-! ### The call as it is, and guarded -/

/-- The same state, reached under the discipline. -/
def SameRun (s s' : ChipState) : Prop := s = s' ∧ Disciplined s.log

/-- A call that is no `ReadPageBody` keeps the discipline. -/
theorem answers_sameRun {α : Type} {G : α → ChipState → ChipState → Prop}
    {x : Except EfiStatus α × ChipState} (hlog : Disciplined x.2.log)
    (hG : ∀ a t, x = (.ok a, t) → G a t t) : Answers SameRun G x x := by
  obtain ⟨r, t⟩ := x
  cases r with
  | error e => exact .error e ⟨rfl, hlog⟩
  | ok a => exact .ok ⟨rfl, hlog⟩ (hG a t rfl)

theorem readsAlike_guarded (e : Fault) :
    ReadsAlike chip.nandFlash chip.nandFlash.bodyOfRegister (chip.guardedBody e) SameRun
      (fun page s s' => SameRun s s' ∧ chip.JustLoaded page s)
      (fun page body => body = chip.view page) where
  readPage := by
    rintro page s _ ⟨rfl, hlog⟩
    obtain ⟨loaded, hcall⟩ := chip.readPage_log page s
    refine answers_sameRun ?_ fun body t h => chip.view_of_readPage h
    exact hcall ▸ hlog.snoc nofun
  readTags := by
    rintro page s _ ⟨rfl, hlog⟩
    obtain ⟨loaded, hcall⟩ := chip.readTags_log page s
    have hlog' : Disciplined (chip.alNandFlashReadTags page s).2.log :=
      hcall ▸ hlog.snoc nofun
    refine answers_sameRun hlog' fun raw t h hlive => ?_
    have ht : t = (chip.alNandFlashReadTags page s).2 := (congrArg Prod.snd h).symm
    exact ⟨⟨rfl, ht ▸ hlog'⟩, chip.justLoaded_of_readTags h hlive⟩
  readBody := by
    rintro page s _ ⟨⟨rfl, hlog⟩, hloaded⟩
    rw [guardedBody, if_pos hloaded.last]
    refine .ok ?_
    have hlog' : Disciplined (s.log ++ [.readPageBody]) :=
      hlog.snoc fun _ => ⟨page, hloaded.last⟩
    show Answers SameRun _ (chip.alNandFlashReadPageBody s) (chip.alNandFlashReadPageBody s)
    rw [alNandFlashReadPageBody]
    split
    · refine .ok ⟨rfl, hlog'⟩ ?_
      rw [hloaded.register, output, chip.view_of_loadable hloaded.loadable]
    · exact .error _ ⟨rfl, hlog'⟩

/-! ### The call replaced by `ReadPage` -/

/-- The same register after the same number of calls. -/
def SameRegister (s s' : ChipState) : Prop :=
  s.register = s'.register ∧ s.log.length = s'.log.length

theorem SameRegister.serves {s s' : ChipState} (h : SameRegister s s') :
    chip.serves s = chip.serves s' := by
  rw [NandChip.serves, NandChip.serves, h.2]

theorem SameRegister.snoc {s s' : ChipState} (h : SameRegister s s') (a a' : NandAccess) :
    SameRegister { s with log := s.log ++ [a] } { s' with log := s'.log ++ [a'] } :=
  ⟨h.1, by simp [h.2]⟩

theorem SameRegister.load {s s' : ChipState} (h : SameRegister s s') (page : UInt32)
    (a a' : NandAccess) :
    SameRegister ⟨some page, s.log ++ [a]⟩ ⟨some page, s'.log ++ [a']⟩ :=
  ⟨rfl, by simp [h.2]⟩

theorem readPage_answers (page : UInt32) {s s' : ChipState} (h : SameRegister s s') :
    Answers SameRegister (fun _ _ _ => True) (chip.alNandFlashReadPage page s)
      (chip.alNandFlashReadPage page s') := by
  rw [alNandFlashReadPage, alNandFlashReadPage, h.serves chip]
  split
  · exact .error _ (h.snoc _ _)
  · split
    · exact .ok (h.snoc _ _) trivial
    · split
      · exact .ok (h.load _ _ _) trivial
      · exact .error _ (h.snoc _ _)

theorem readTags_answers (page : UInt32) {s s' : ChipState} (h : SameRegister s s') :
    Answers SameRegister (fun _ _ _ => True) (chip.alNandFlashReadTags page s)
      (chip.alNandFlashReadTags page s') := by
  rw [alNandFlashReadTags, alNandFlashReadTags, h.serves chip]
  split
  · exact .error _ (h.snoc _ _)
  · split
    · exact .ok (h.snoc _ _) trivial
    · split
      · exact .ok (h.load _ _ _) trivial
      · exact .error _ (h.snoc _ _)

/-- `ReadPage` of the page in the register answers as `ReadPageBody`. -/
theorem readPageBody_answers {page : UInt32} {s s' : ChipState} (h : SameRegister s s')
    (hloaded : chip.JustLoaded page s) :
    Answers SameRegister (fun _ _ _ => True) (chip.alNandFlashReadPageBody s)
      (chip.alNandFlashReadPage page s') := by
  obtain ⟨register, log⟩ := s
  obtain rfl : register = some page := hloaded.register
  have hrange : ¬ page ≥ chip.numPages := by simpa using hloaded.loadable.1
  rw [alNandFlashReadPage, if_neg hrange, hloaded.loadable.2, if_neg Bool.false_ne_true,
    ← h.serves chip, alNandFlashReadPageBody]
  split
  · exact .ok (h.load page .readPageBody (.readPage page true)) trivial
  · exact .error _ (h.snoc _ _)

theorem readsAlike_readPage :
    ReadsAlike chip.nandFlash chip.nandFlash.bodyOfRegister chip.bodyOfPage SameRegister
      (fun page s s' => SameRegister s s' ∧ chip.JustLoaded page s) (fun _ _ => True) where
  readPage page _ _ h := chip.readPage_answers page h
  readTags page _ _ h := (chip.readTags_answers page h).imp fun _ _ _ hcall hsame _ hlive =>
    ⟨hsame, chip.justLoaded_of_readTags hcall hlive⟩
  readBody _ _ _ h := .ok (chip.readPageBody_answers h.1 h.2)

end NandChip

/-! ## The scan on the chip -/

/-- The volume scan keeps the two-step discipline: a `ReadPageBody` that
faults (with any fault) unless the call before it is a `ReadTags` that
loaded the page the body is taken for makes no difference to any run, nor
does reading that page with `ReadPage` instead; and when the block loop
ends, the calls it made are disciplined and every header handed over is
parsed from the chip's content of its own page. -/
theorem scan_disciplined (chip : NandChip) (pools : UInt32 → Pool)
    (register : Option UInt32) :
    (∀ e, yaffs2ScanNandWith chip.nandFlash (chip.guardedBody e) pools ⟨register, []⟩ =
        yaffs2ScanNand chip.nandFlash pools ⟨register, []⟩)
      ∧ yaffs2ScanNandWith chip.nandFlash chip.bodyOfPage pools ⟨register, []⟩ =
        yaffs2ScanNand chip.nandFlash pools ⟨register, []⟩
      ∧ ∀ st, scanBlocks chip.nandFlash pools ⟨⟨register, []⟩, .empty, 0, 0, []⟩ = .ok st →
        Disciplined st.nand.log
          ∧ ∀ tags body page, .header tags body page ∈ st.handed → body = chip.view page := by
  have hstart : NandChip.SameRun ⟨register, []⟩ ⟨register, []⟩ := ⟨rfl, Disciplined.nil⟩
  refine ⟨fun e => ?_, ?_, fun st hrun => ?_⟩
  · rw [← yaffs2ScanNandWith_register]
    exact (yaffs2ScanNandWith_eq (chip.readsAlike_guarded e) hstart).symm
  · rw [← yaffs2ScanNandWith_register]
    exact (yaffs2ScanNandWith_eq chip.readsAlike_readPage ⟨rfl, rfl⟩).symm
  · rw [← scanBlocksWith_register] at hrun
    have hreads := chip.readsAlike_guarded .diverge
    obtain ⟨st', -, hst⟩ :=
      (scanBlocksWith_lockstep hreads (SameScan.start hstart)).exists_ok hrun
    cases hst with
    | mk hR hgood => exact ⟨hR.2, fun tags body page hmem => hgood _ hmem⟩

end Ccr2004
