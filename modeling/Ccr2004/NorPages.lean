import Ccr2004.NorTrace
import Ccr2004.FlashApp

/-!
# Page programs of a write

`SpiNorWriteData` cuts a range at the page boundaries. `PagePrograms a data es`
says what that has to look like on the bus: `es` programs `data` from `a` on,
piece after piece, each piece inside one page, after a write enable that was
seen to latch and before a wait that saw the program end. A write that stops
early is such a list and then one `Attempt` that went wrong.

The cells are read off the exchanges: a program changes its own piece only, so
whatever stops a write, only what was issued can have changed.
-/

namespace Ccr2004

/-- The page program of `bytes` at `a`. -/
def pageProgram (a : Nat) (bytes : List UInt8) (answer : Option (List UInt8)) : Exchange :=
  ⟨addressedCmd cmdPageProgram (UInt32.ofNat a), bytes, 0, answer⟩

/-- A piece that does not run over the end of its page. -/
def InsidePage (a : Nat) (bytes : List UInt8) : Prop :=
  bytes ≠ [] ∧ a % 256 + bytes.length ≤ 256

/-- `es` programs `data` from `a` on, page by page. -/
inductive PagePrograms (a : Nat) : List UInt8 → List Exchange → Prop
  | nil : PagePrograms a [] []
  | snoc {data bytes answer : List UInt8} {es enable wait : List Exchange} :
      PagePrograms a data es → Enabled enable → InsidePage (a + data.length) bytes →
      Ready wait →
      PagePrograms a (data ++ bytes)
        (es ++ (enable ++ pageProgram (a + data.length) bytes (some answer) :: wait))

/-- A round that went wrong: before its program was issued, or with `bytes`
issued at `a`. -/
inductive Attempt (a : Nat) : List UInt8 → List Exchange → Prop
  | enabling {es : List Exchange} : Unaddressed es → Attempt a [] es
  | programming {bytes : List UInt8} {answer : Option (List UInt8)}
      {enable polls : List Exchange} :
      Enabled enable → InsidePage a bytes → Polls polls →
      Attempt a bytes (enable ++ pageProgram a bytes answer :: polls)

/-- `es` issued the programs of `issued` and stopped in the last round. -/
def Interrupted (a : Nat) (issued : List UInt8) (es : List Exchange) : Prop :=
  ∃ done tried es₁ es₂, issued = done ++ tried ∧ es = es₁ ++ es₂
    ∧ PagePrograms a done es₁ ∧ Attempt (a + done.length) tried es₂

namespace Spi

/-! ## What the programs do -/

/-- One program, whatever comes of it. -/
theorem Traced.program_confined {s s' : Spi} {a : Nat} {bytes : List UInt8}
    {answer : Option (List UInt8)} {enable wait : List Exchange}
    (h : Traced s (enable ++ pageProgram a bytes answer :: wait) s')
    (henable : Unaddressed enable) (hwait : Unaddressed wait) (hpage : InsidePage a bytes)
    (hroom : a + bytes.length ≤ 16777216) :
    Memory.SameOutside a (a + bytes.length) s.flash.cells s'.flash.cells := by
  obtain ⟨s₁, hen, hrest⟩ := h.split
  obtain ⟨⟩ | ⟨cmd, data, n, hrest⟩ := hrest
  have hpos : 0 < bytes.length := List.length_pos_iff.mpr hpage.1
  have haddr : (UInt32.ofNat a).toNat = a :=
    UInt32.toNat_ofNat_of_lt' (show a < 4294967296 by omega)
  have hcells := hrest.cells_of_unaddressed hwait
  rw [transfer_flash, exec_program _ _ _ (by omega), haddr] at hcells
  rw [hcells, ← hen.cells_of_unaddressed henable]
  exact s₁.flash.program_confined _ hpage.2

theorem Traced.programs_confined {s s' : Spi} {a : Nat} {data : List UInt8}
    {es : List Exchange} (hpages : PagePrograms a data es) (h : Traced s es s')
    (hroom : a + data.length ≤ 16777216) :
    Memory.SameOutside a (a + data.length) s.flash.cells s'.flash.cells := by
  induction hpages generalizing s' with
  | nil =>
      cases h
      exact Memory.SameOutside.refl _ _ _
  | @snoc data bytes answer es enable wait hdone henable hpage hready ih =>
      rw [List.length_append] at hroom ⊢
      obtain ⟨s₁, hbefore, hround⟩ := h.split
      have hpiece := hround.program_confined henable.unaddressed hready.polls.unaddressed
        hpage (by omega)
      exact ((ih hbefore (by omega)).mono (Nat.le_refl _) (by omega)).trans
        (hpiece.mono (by omega) (by omega))

theorem Traced.attempt_confined {s s' : Spi} {a : Nat} {tried : List UInt8}
    {es : List Exchange} (hattempt : Attempt a tried es) (h : Traced s es s')
    (hroom : a + tried.length ≤ 16777216) :
    Memory.SameOutside a (a + tried.length) s.flash.cells s'.flash.cells := by
  cases hattempt with
  | enabling hes =>
      rw [h.cells_of_unaddressed hes]
      exact Memory.SameOutside.refl _ _ _
  | programming henable hpage hpolls =>
      exact h.program_confined henable.unaddressed hpolls.unaddressed hpage hroom

/-- Only what was issued can have changed. -/
theorem Traced.interrupted_confined {s s' : Spi} {a : Nat} {issued : List UInt8}
    {es : List Exchange} (hint : Interrupted a issued es) (h : Traced s es s')
    (hroom : a + issued.length ≤ 16777216) :
    Memory.SameOutside a (a + issued.length) s.flash.cells s'.flash.cells := by
  obtain ⟨done, tried, es₁, es₂, rfl, rfl, hpages, hattempt⟩ := hint
  rw [List.length_append] at hroom ⊢
  obtain ⟨s₁, hbefore, hlast⟩ := h.split
  have hdone := hbefore.programs_confined hpages (by omega)
  have htried := hlast.attempt_confined hattempt (by omega)
  exact (hdone.mono (Nat.le_refl _) (by omega)).trans (htried.mono (by omega) (by omega))

/-! ## The write loop on the bus -/

/-- The exchanges of a write with `st` left to do. -/
structure PagesInv (s₀ : Spi) (a : Nat) (data : List UInt8) (st : WriteState) : Prop where
  issued : ∃ done es, data = done ++ st.buffer ∧ st.flashAddress.toNat = a + done.length
    ∧ Traced s₀ es st.spi ∧ PagePrograms a done es
  left : st.lengthInBytes.toNat = st.buffer.length

/-- How a write looks on the bus: all of it, or up to the round that went
wrong. -/
structure PagesDone (s₀ : Spi) (a : Nat) (data : List UInt8) (r : EfiStatus × Spi) :
    Prop where
  all : r.1 = .success → ∃ es, Traced s₀ es r.2 ∧ PagePrograms a data es
  front : r.1 ≠ .success →
    ∃ issued es, Traced s₀ es r.2 ∧ Interrupted a issued es ∧ issued <+: data

theorem PagesDone.of_error {s₀ s : Spi} {a : Nat} {done tried rest : List UInt8}
    {es₁ es₂ : List Exchange} {status : EfiStatus} (hpages : PagePrograms a done es₁)
    (hattempt : Attempt (a + done.length) tried es₂) (htr : Traced s₀ (es₁ ++ es₂) s)
    (hrest : tried <+: rest) (herr : status.isError) :
    PagesDone s₀ a (done ++ rest) (status, s) := by
  constructor
  · rintro rfl
    cases herr
  · intro _
    refine ⟨done ++ tried, _, htr, ⟨done, tried, es₁, es₂, rfl, rfl, hpages, hattempt⟩, ?_⟩
    exact (List.prefix_append_right_inj done).mpr hrest

theorem PagePiece.insidePage {st : WriteState} {piece rest : List UInt8}
    (h : PagePiece st piece rest) : InsidePage st.flashAddress.toNat piece :=
  ⟨h.nonempty, h.inPage⟩

theorem PagePiece.front {st : WriteState} {piece rest : List UInt8}
    (h : PagePiece st piece rest) : piece <+: st.buffer := by
  rw [h.buffer]
  exact List.prefix_append piece rest

theorem writeRound_pages {s₀ : Spi} {a : Nat} {data : List UInt8}
    (h : a + data.length ≤ 16777216) {st : WriteState} (hst : PagesInv s₀ a data st) :
    ∃ c, writeRound st = .ok c
      ∧ c.Post
        (fun st' => PagesInv s₀ a data st'
          ∧ st'.lengthInBytes.toNat < st.lengthInBytes.toNat)
        (PagesDone s₀ a data) := by
  obtain ⟨⟨done, es, rfl, haddr, htr, hpages⟩, hleft⟩ := hst
  rw [List.length_append] at h
  have hplace : st.flashAddress = UInt32.ofNat (a + done.length) := by
    rw [← haddr, UInt32.ofNat_toNat]
  obtain ⟨c, hc, hstep⟩ := writeRound_step hleft
  refine ⟨c, hc, ?_⟩
  obtain ⟨status₁, s₁, enable, henable₁, htr₁, hun, hen⟩ := st.spi.flashWriteEnable_traced
  cases hstep with
  | finished hnil =>
      rw [hnil, List.append_nil]
      exact ⟨fun _ => ⟨es, htr, hpages⟩, fun herr => absurd rfl herr⟩
  | notEnabled henable herr =>
      obtain ⟨rfl, rfl⟩ := Prod.mk.inj (Except.ok.inj (henable₁.symm.trans henable))
      exact PagesDone.of_error hpages (.enabling hun) (htr.append htr₁) List.nil_prefix herr
  | @notProgrammed piece rest _ _ _ _ hpiece henable henabled hwrite herr =>
      obtain ⟨rfl, rfl⟩ := Prod.mk.inj (Except.ok.inj (henable₁.symm.trans henable))
      obtain ⟨answer, status₂, s₂, hwrite₂, htr₂, -⟩ :=
        s₁.halWrite_traced (addressedCmd cmdPageProgram st.flashAddress) piece
      obtain ⟨rfl, rfl⟩ := Prod.mk.inj (hwrite₂.symm.trans hwrite)
      have hpage := hpiece.insidePage
      rw [haddr] at hpage
      rw [hplace] at htr₂
      exact PagesDone.of_error hpages (.programming (hen henabled) hpage Polls.nil)
        (htr.append (htr₁.append htr₂)) hpiece.front herr
  | @waited piece rest _ _ _ _ s₂ s₃ _ hpiece henable henabled hwrite hwritten hwait hend =>
      obtain ⟨rfl, rfl⟩ := Prod.mk.inj (Except.ok.inj (henable₁.symm.trans henable))
      obtain ⟨answer, status₂, s₂', hwrite₂, htr₂, hsome⟩ :=
        s₁.halWrite_traced (addressedCmd cmdPageProgram st.flashAddress) piece
      obtain ⟨rfl, rfl⟩ := Prod.mk.inj (hwrite₂.symm.trans hwrite)
      obtain ⟨answer, rfl⟩ := hsome hwritten
      obtain ⟨status₃, s₃', wait, hwait₃, htr₃, hpolls, hready⟩ := s₂'.flashWaitReady_traced
      obtain ⟨rfl, rfl⟩ := Prod.mk.inj (Except.ok.inj (hwait₃.symm.trans hwait))
      have hpage := hpiece.insidePage
      rw [haddr] at hpage
      rw [hplace] at htr₂
      have hround := htr.append (htr₁.append (htr₂.append htr₃))
      have hless := hpiece.rest_lt
      rcases hend with ⟨herr, rfl⟩ | ⟨hok, st', rfl, rfl, rfl, hleft', haddr'⟩
      · exact PagesDone.of_error hpages (.programming (hen henabled) hpage hpolls) hround
          hpiece.front herr
      · refine ⟨⟨⟨done ++ piece, _, ?_, ?_, hround,
          .snoc hpages (hen henabled) hpage (hready hok)⟩, hleft'⟩, by omega⟩
        · rw [hpiece.buffer, List.append_assoc]
        · rw [hpiece.buffer, List.length_append] at h
          rw [haddr', haddr, List.length_append]
          omega

/-- A write of a range inside the flash: on success its exchanges are the page
programs of the data and the cells are the old ones AND the data; otherwise it
issued the page programs of a front of the data, and no other cell has
changed. -/
theorem spiNorWriteData_pages (s : Spi) (flashAddress lengthInBytes : UInt32)
    (buffer : List UInt8) (hlen : buffer.length = lengthInBytes.toNat)
    (h : flashAddress.toNat + lengthInBytes.toNat ≤ flashSize.toNat) :
    ∃ status s', s.spiNorWriteData flashAddress lengthInBytes buffer = .ok (status, s')
      ∧ (status = .success →
          PagePrograms flashAddress.toNat buffer (s.traceTo s')
            ∧ Programmed s.flash.cells s'.flash.cells flashAddress.toNat buffer)
      ∧ (status ≠ .success →
          ∃ issued, issued <+: buffer
            ∧ Interrupted flashAddress.toNat issued (s.traceTo s')
            ∧ Memory.SameOutside flashAddress.toNat (flashAddress.toNat + issued.length)
                s.flash.cells s'.flash.cells) := by
  have hsize : flashSize.toNat = 16777216 := rfl
  obtain ⟨r, hr, hpages⟩ := loopFuel_total (k := lengthInBytes.toNat + 1)
    (I := PagesInv s flashAddress.toNat buffer)
    (μ := fun st => st.lengthInBytes.toNat)
    (fun st hst => writeRound_pages (by omega) hst)
    (s := { flashAddress := flashAddress, lengthInBytes := lengthInBytes, buffer := buffer
            spi := s })
    ⟨⟨[], [], rfl, rfl, .nil s, .nil⟩, hlen.symm⟩ (Nat.lt_succ_self _)
  obtain ⟨r', hr', hwritten⟩ := s.spiNorWriteData_spec flashAddress hlen (by omega)
  have hrun : s.spiNorWriteData flashAddress lengthInBytes buffer = .ok r := by
    rw [spiNorWriteData, if_neg (rangeCheck_passes (by omega)), hr]
  obtain rfl : r' = r := Except.ok.inj (hr'.symm.trans hrun)
  refine ⟨r'.1, r'.2, hrun, ?_, ?_⟩
  · intro hok
    obtain ⟨es, htr, hes⟩ := hpages.all hok
    rw [htr.traceTo_eq]
    exact ⟨hes, hwritten.exact hok⟩
  · intro herr
    obtain ⟨issued, es, htr, hint, hprefix⟩ := hpages.front herr
    have hle := hprefix.length_le
    rw [htr.traceTo_eq]
    exact ⟨issued, hprefix, hint, htr.interrupted_confined hint (by omega)⟩

/-- Three bytes across a page boundary, with no errors. -/
theorem spiNorWriteData_pages_threeBytes :
    ∃ s', zeroedSpi.spiNorWriteData 0x1FE 3 [1, 2, 3] = .ok (.success, s')
      ∧ PagePrograms 0x1FE [1, 2, 3] (zeroedSpi.traceTo s')
      ∧ Programmed zeroedSpi.flash.cells s'.flash.cells 0x1FE [1, 2, 3] := by
  obtain ⟨status, s', hrun, hdone, -⟩ :=
    spiNorWriteData_pages zeroedSpi 0x1FE 3 [1, 2, 3] rfl (by decide)
  have hok : (zeroedSpi.spiNorWriteData 0x1FE 3 [1, 2, 3]).map Prod.fst = .ok .success := by
    decide +kernel
  rw [hrun] at hok
  obtain rfl : status = .success := Except.ok.inj hok
  exact ⟨s', hrun, hdone rfl⟩

end Spi

end Ccr2004
