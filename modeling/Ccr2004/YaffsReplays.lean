import Ccr2004.YaffsBlock

/-!
# Runs of the scan that replay pages

`Replays` compares a piece of the scan with the replay of a list of pages:
both end with the same volume or both fault, whatever the device and the page
counters do meanwhile. `Replays.bind` puts two pieces together, and
`forFrom_replays` goes from the rounds of a loop to the loop, up to the first
round that leaves.
-/

namespace Ccr2004

/-! ## Runs that replay pages -/

section Replay

variable {σ τ υ : Type} {nand : NandFlashProtocol σ} {pools : UInt32 → Pool}

/-- A run from `st` ends as `wrap` of a state in which these pages have been
handed over, and faults where handing them over does. -/
def Replays (pools : UInt32 → Pool) (st : ScanState σ) (pages : List Page)
    (wrap : ScanState σ → τ) (x : Run τ) : Prop :=
  match replay pools st.volume pages with
  | .error e => x = .error e
  | .ok vol => ∃ st', x = .ok (wrap st') ∧ st'.volume = vol
      ∧ st'.handed = st.handed ++ pages.map Page.call

theorem Replays.of_same {st st' : ScanState σ} {wrap : ScanState σ → τ} {x : Run τ}
    (hx : x = .ok (wrap st')) (hvol : st'.volume = st.volume)
    (hhanded : st'.handed = st.handed) : Replays pools st [] wrap x :=
  ⟨st', hx, hvol, by rw [hhanded, List.map_nil, List.append_nil]⟩

theorem Replays.eq_ok {st : ScanState σ} {pages : List Page} {wrap : ScanState σ → τ}
    {x : Run τ} {r : τ} (h : Replays pools st pages wrap x) (hx : x = .ok r) :
    ∃ st', r = wrap st' ∧ replay pools st.volume pages = .ok st'.volume
      ∧ st'.handed = st.handed ++ pages.map Page.call := by
  unfold Replays at h
  cases hrun : replay pools st.volume pages with
  | error e =>
      rw [hrun] at h
      cases hx.symm.trans h
  | ok vol =>
      rw [hrun] at h
      obtain ⟨st', hst', hvol, hhanded⟩ := h
      exact ⟨st', Except.ok.inj (hx.symm.trans hst'), by rw [hvol], hhanded⟩

theorem Replays.total {st : ScanState σ} {pages : List Page} {wrap : ScanState σ → τ}
    {x : Run τ} {vol : Yaffs2Volume} (h : Replays pools st pages wrap x)
    (hrun : replay pools st.volume pages = .ok vol) :
    ∃ st', x = .ok (wrap st') ∧ st'.volume = vol
      ∧ st'.handed = st.handed ++ pages.map Page.call := by
  unfold Replays at h
  rwa [hrun] at h

/-- The rest of a run replays the rest of the pages. -/
theorem Replays.bind {st : ScanState σ} {pages pages' : List Page}
    {wrap : ScanState σ → τ} {wrap' : ScanState σ → υ} {x : Run τ} {f : τ → Run υ}
    (h : Replays pools st pages wrap x)
    (hf : ∀ st', Replays pools st' pages' wrap' (f (wrap st'))) :
    Replays pools st (pages ++ pages') wrap' (x >>= f) := by
  unfold Replays at h ⊢
  rw [replay, List.foldlM_append]
  change match replay pools st.volume pages >>= (replay pools · pages') with
    | .error e => _ | .ok vol => _
  cases hrun : replay pools st.volume pages with
  | error e =>
      rw [hrun] at h
      rw [h]
      rfl
  | ok vol =>
      rw [hrun] at h
      obtain ⟨st', rfl, rfl, hhanded⟩ := h
      have hrest := hf st'
      unfold Replays at hrest
      rw [ok_bind, ok_bind]
      cases hrun' : replay pools st'.volume pages' with
      | error e =>
          rw [hrun'] at hrest
          exact hrest
      | ok vol' =>
          rw [hrun'] at hrest
          obtain ⟨st'', hx, hvol, hhanded'⟩ := hrest
          exact ⟨st'', hx, hvol, by
            rw [hhanded', hhanded, List.map_append, List.append_assoc]⟩

theorem Replays.map {st : ScanState σ} {pages : List Page} {wrap : ScanState σ → τ}
    {wrap' : ScanState σ → υ} {x : Run τ} {f : τ → Run υ} (h : Replays pools st pages wrap x)
    (hf : ∀ st', f (wrap st') = .ok (wrap' st')) :
    Replays pools st pages wrap' (x >>= f) := by
  have hbind : Replays pools st (pages ++ []) wrap' (x >>= f) :=
    h.bind fun st' => .of_same (hf st') rfl rfl
  rwa [List.append_nil] at hbind

/-- One call, after any change to the device and the counters. -/
theorem Replays.hand {st s : ScanState σ} {p : Page} {call : PageCall}
    (hcall : p.call = call) (hvol : s.volume = st.volume) (hhanded : s.handed = st.handed)
    (wrap : ScanState σ → τ) :
    Replays pools st [p] wrap (do let s ← s.hand pools call; .ok (wrap s)) := by
  subst hcall
  unfold Replays ScanState.hand
  rw [replay, List.foldlM_cons, Page.call_page, hvol]
  cases p.call.apply (pools p.idx) st.volume with
  | error e => rfl
  | ok vol => exact ⟨_, rfl, rfl, by rw [hhanded]; rfl⟩

/-- A replay depends on the calls its pages stand for, not on the pages. -/
theorem replay_congr {pages pages' : List Page} (vol : Yaffs2Volume)
    (h : pages.map Page.call = pages'.map Page.call) :
    replay pools vol pages = replay pools vol pages' := by
  have hcalls : ∀ l : List Page, replay pools vol l
      = (l.map Page.call).foldlM (fun v call => call.apply (pools call.page) v) vol := by
    intro l
    rw [List.foldlM_map]
    simp only [Page.call_page]
    rfl
  rw [hcalls, hcalls, h]

/-! ## Loops that replay pages -/

/-- Some round below `n` leaves the loop. -/
def leavesBefore (stop : Nat → Bool) (n : Nat) : Bool :=
  (List.range n).any stop

/-- What the rounds below `n` hand over: nothing from the first one that
leaves. -/
def roundPages (stop : Nat → Bool) (pages : Nat → List Page) (n : Nat) : List Page :=
  (List.range n).flatMap fun i => if leavesBefore stop (i + 1) then [] else pages i

theorem leavesBefore_succ (stop : Nat → Bool) (n : Nat) :
    leavesBefore stop (n + 1) = (leavesBefore stop n || stop n) := by
  rw [leavesBefore, List.range_succ, List.any_append]
  simp [leavesBefore]

theorem roundPages_succ (stop : Nat → Bool) (pages : Nat → List Page) (n : Nat) :
    roundPages stop pages (n + 1)
      = roundPages stop pages n ++ if leavesBefore stop (n + 1) then [] else pages n := by
  rw [roundPages, List.range_succ, List.flatMap_append]
  simp [roundPages]

/-- A round that leaves replays no pages, any other round its own. -/
def RoundReplays (pools : UInt32 → Pool) (stop : Nat → Bool) (pages : Nat → List Page)
    (body : Nat → ScanState σ → Run (Flow (ScanState σ) (ScanState σ))) (n : Nat) : Prop :=
  ∀ j < n, ∀ s, if stop j then Replays pools s [] .exit (body j s)
    else Replays pools s (pages j) .next (body j s)

theorem forFrom_replays {stop : Nat → Bool} {pages : Nat → List Page}
    {body : Nat → ScanState σ → Run (Flow (ScanState σ) (ScanState σ))} {n : Nat}
    (h : RoundReplays pools stop pages body n) (st : ScanState σ) :
    Replays pools st (roundPages stop pages n)
      (if leavesBefore stop n then .exit else .next) (forFrom body n 0 st) := by
  induction n with
  | zero => exact .of_same rfl rfl rfl
  | succ n ih =>
      have hrest := ih fun j hj => h j (Nat.lt_succ_of_lt hj)
      have hround := h n (Nat.lt_succ_self n)
      rw [forFrom_add, roundPages_succ]
      simp only [Nat.zero_add, forFrom_one]
      refine hrest.bind fun s => ?_
      rw [leavesBefore_succ]
      cases hleft : leavesBefore stop n with
      | true => exact .of_same rfl rfl rfl
      | false =>
          have hs := hround s
          cases hstop : stop n with
          | true =>
              rw [hstop] at hs
              exact hs
          | false =>
              rw [hstop] at hs
              exact hs

/-- Rounds that hand over at most one page each select pages by index. -/
theorem roundPages_eq_pagesUpTo (stop keep : Nat → Bool) (page : Nat → Page) (n : Nat) :
    roundPages stop (fun i => if keep i then [page i] else []) n
      = pagesUpTo (fun i => !leavesBefore stop (i + 1) && keep i) page n := by
  induction n with
  | zero => rfl
  | succ n ih =>
      rw [roundPages_succ, pagesUpTo_succ, ih]
      cases leavesBefore stop (n + 1) <;> simp

theorem leavesBefore_eq_false {stop : Nat → Bool} {n : Nat} :
    leavesBefore stop n = false ↔ ∀ j < n, stop j = false := by
  simp [leavesBefore]

theorem roundPages_never (pages : Nat → List Page) (n : Nat) :
    roundPages (fun _ => false) pages n = (List.range n).flatMap pages := by
  have hnone : ∀ i, leavesBefore (fun _ => false) i = false := fun i =>
    leavesBefore_eq_false.mpr fun _ _ => rfl
  simp only [roundPages, hnone, Bool.false_eq_true, if_false]

/-- Lists laid out one after another agree piece by piece when each element
tells which piece it is in. -/
theorem flatMap_range_inj {α : Type} (key : α → Nat) {f g : Nat → List α} {n : Nat}
    (hf : ∀ b < n, ∀ x ∈ f b, key x = b) (hg : ∀ b < n, ∀ x ∈ g b, key x = b)
    (h : (List.range n).flatMap f = (List.range n).flatMap g) :
    ∀ b < n, f b = g b := by
  induction n with
  | zero => exact fun b hb => absurd hb (Nat.not_lt_zero b)
  | succ n ih =>
      rw [List.range_succ, List.flatMap_append, List.flatMap_append,
        List.flatMap_singleton, List.flatMap_singleton] at h
      have hbefore : ∀ p : Nat → List α, (∀ b < n + 1, ∀ x ∈ p b, key x = b) →
          ((List.range n).flatMap p).filter (fun x => key x = n) = [] := by
        intro p hp
        rw [List.filter_eq_nil_iff]
        intro x hx
        obtain ⟨b, hb, hx⟩ := List.mem_flatMap.mp hx
        have hlt := List.mem_range.mp hb
        rw [hp b (Nat.lt_succ_of_lt hlt) x hx]
        simpa using Nat.ne_of_lt hlt
      have hlast : ∀ p : Nat → List α, (∀ b < n + 1, ∀ x ∈ p b, key x = b) →
          (p n).filter (fun x => key x = n) = p n := by
        intro p hp
        rw [List.filter_eq_self]
        exact fun x hx => decide_eq_true (hp n (Nat.lt_succ_self n) x hx)
      have hn : f n = g n := by
        have hkey := congrArg (List.filter fun x => key x = n) h
        rwa [List.filter_append, List.filter_append, hbefore f hf, hbefore g hg,
          hlast f hf, hlast g hg] at hkey
      rw [hn] at h
      have hrest := ih (fun b hb => hf b (Nat.lt_succ_of_lt hb))
        (fun b hb => hg b (Nat.lt_succ_of_lt hb)) (List.append_cancel_right h)
      intro b hb
      rcases Nat.lt_succ_iff_lt_or_eq.mp hb with hlt | rfl
      · exact hrest b hlt
      · exact hn

end Replay

end Ccr2004
