import Ccr2004.NpkInflate

/-!
# Zlib streams of stored blocks

`Zlib.buffered` inflates a whole stream when it starts and hands out the
output from then on; it honours the contract of `inflate` for any `decode`.
`storedDecode` is `decode` for the streams that only have stored blocks, and
`storedStream` writes such a stream for any content of up to 64 KiB, as long
as wanted: `storedDecode_storedStream` says that it inflates back.
-/

namespace Ccr2004

/-! ## A zlib for any decoder -/

/-- The state is the output not handed out yet, and whether the stream
ends. -/
def Zlib.buffered (decode : List UInt8 → List UInt8 × Bool) : Zlib (List UInt8 × Bool) where
  inflateInit x := some (decode x)
  inflate s n :=
    if s.1.length ≤ n then (if s.2 then .streamEnd else .error, s.1, ([], s.2))
    else if n = 0 then (.error, [], s)
    else (.ok, s.1.take n, (s.1.drop n, s.2))

/-- What is out and what is left make up the output. -/
def Zlib.BufferedAt (decode : List UInt8 → List UInt8 × Bool) (x : List UInt8)
    (s : List UInt8 × Bool) (p : List UInt8) (_ : Nat) : Prop :=
  decode x = (p ++ s.1, s.2)

/-- What a call does: it hands out the rest, has no room for any of it, or
hands out as much as there is room for. -/
theorem Zlib.buffered_inflate {decode : List UInt8 → List UInt8 × Bool}
    {s s' : List UInt8 × Bool} {n : Nat} {r : ZReturn} {b : List UInt8}
    (h : (Zlib.buffered decode).inflate s n = (r, b, s')) :
    (s.1.length ≤ n ∧ b = s.1 ∧ r = if s.2 then .streamEnd else .error)
      ∨ (n < s.1.length ∧ n = 0 ∧ b = [] ∧ r = .error)
      ∨ (n < s.1.length ∧ n ≠ 0 ∧ b = s.1.take n ∧ r = .ok ∧ s' = (s.1.drop n, s.2)) := by
  simp only [buffered] at h
  by_cases hfits : s.1.length ≤ n
  · rw [if_pos hfits, Prod.mk.injEq, Prod.mk.injEq] at h
    exact Or.inl ⟨hfits, h.2.1.symm, h.1.symm⟩
  · rw [if_neg hfits] at h
    by_cases hn : n = 0
    · rw [if_pos hn, Prod.mk.injEq, Prod.mk.injEq] at h
      exact Or.inr (Or.inl ⟨by omega, hn, h.2.1.symm, h.1.symm⟩)
    · rw [if_neg hn, Prod.mk.injEq, Prod.mk.injEq] at h
      exact Or.inr (Or.inr ⟨by omega, hn, h.2.1.symm, h.1.symm, h.2.2.symm⟩)

theorem Zlib.buffered_honours (decode : List UInt8 → List UInt8 × Bool) :
    (Zlib.buffered decode).Honours decode (Zlib.BufferedAt decode) where
  init x := ⟨decode x, rfl, rfl⟩
  produces := by
    intro x s p l n r b s' hat hcall
    rw [BufferedAt] at hat
    rw [hat, List.prefix_append_right_inj]
    rcases buffered_inflate hcall with ⟨hfits, rfl, -⟩ | ⟨-, -, rfl, -⟩ | ⟨-, -, rfl, -⟩
    · exact ⟨hfits, List.prefix_refl _⟩
    · exact ⟨Nat.zero_le _, List.nil_prefix⟩
    · exact ⟨List.length_take_le _ _, List.take_prefix _ _⟩
  streamEnd := by
    intro x s p l n b s' hat hcall
    rw [BufferedAt] at hat
    rw [hat]
    rcases buffered_inflate hcall with ⟨-, rfl, hr⟩ | ⟨-, -, -, hr⟩ | ⟨-, -, -, hr, -⟩
    · refine ⟨?_, rfl⟩
      by_contra hs
      rw [if_neg hs] at hr
      cases hr
    · cases hr
    · cases hr
  progress := by
    intro x s p l n b s' hat hcall
    rw [BufferedAt] at hat
    rcases buffered_inflate hcall with ⟨-, -, hr⟩ | ⟨-, -, -, hr⟩ | ⟨hlt, hn, rfl, -, rfl⟩
    · split at hr <;> cases hr
    · cases hr
    · refine ⟨l, ?_, Nat.le_refl _, Or.inr ?_⟩
      · rw [BufferedAt, hat, List.append_assoc, List.take_append_drop]
      · intro hnil
        have hlen := congrArg List.length hnil
        rw [List.length_take, List.length_nil] at hlen
        omega
  error := by
    intro x s p l n b s' hat hcall hend
    rw [BufferedAt] at hat
    rw [hat] at hend ⊢
    rcases buffered_inflate hcall with ⟨-, -, hr⟩ | ⟨hlt, hn, -, -⟩ | ⟨-, -, -, hr, -⟩
    · rw [if_pos hend] at hr
      cases hr
    · refine ⟨hn, fun heq => ?_⟩
      have hlen := congrArg List.length heq
      rw [List.length_append] at hlen
      omega
    · cases hr

/-! ## Stored blocks -/

/-- `adler32`. -/
def adler32 (bs : List UInt8) : Nat :=
  let sums := bs.foldl
    (fun (a, b) c => ((a + c.toNat) % 65521, (b + a + c.toNat) % 65521)) (1, 0)
  sums.2 * 65536 + sums.1

/-- The check value, most significant byte first. -/
def adlerTrailer (bs : List UInt8) : List UInt8 := (leBytes 4 (adler32 bs)).reverse

/-- Read stored blocks: bit 0 of the first byte is set in the last one, bits
1 and 2 are the type. -/
def storedBlocks : Nat → List UInt8 → List UInt8 → List UInt8 × Bool
  | 0, out, _ => (out, false)
  | fuel + 1, out, bs =>
      let header := leNat (slice bs 0 1)
      let length := leNat (slice bs 1 2)
      if 5 + length ≤ bs.length ∧ leNat (slice bs 3 2) = 65535 - length ∧ header % 8 ≤ 1 then
        let out := out ++ slice bs 5 length
        if header % 8 = 1 then (out, slice bs (5 + length) 4 = adlerTrailer out)
        else storedBlocks fuel out (bs.drop (5 + length))
      else (out, false)

/-- `decode` for streams of stored blocks. -/
def storedDecode (x : List UInt8) : List UInt8 × Bool :=
  if slice x 0 2 = [0x78, 0x01] then storedBlocks x.length [] (x.drop 2) else ([], false)

/-- A block with nothing in it, which is not the last one. -/
def emptyBlock : List UInt8 := [0, 0, 0, 255, 255]

/-- The last block. -/
def lastBlock (content : List UInt8) : List UInt8 :=
  [1] ++ (leBytes 2 content.length ++ (leBytes 2 (65535 - content.length) ++ content))

/-- `n` empty blocks and one with the content. -/
def storedStream (n : Nat) (content : List UInt8) : List UInt8 :=
  [0x78, 0x01] ++ ((List.replicate n emptyBlock).flatten
    ++ (lastBlock content ++ adlerTrailer content))

theorem length_storedStream (n : Nat) (content : List UInt8) :
    (storedStream n content).length = 11 + 5 * n + content.length := by
  simp only [storedStream, lastBlock, adlerTrailer, emptyBlock, List.length_append,
    List.length_flatten, List.map_replicate, List.sum_replicate_nat, List.length_reverse,
    length_leBytes, List.length_cons, List.length_nil]
  omega

theorem storedBlocks_emptyBlock (fuel : Nat) (out bs : List UInt8) :
    storedBlocks (fuel + 1) out (emptyBlock ++ bs) = storedBlocks fuel out bs := by
  simp [storedBlocks, emptyBlock, slice, leNat_cons]

theorem storedBlocks_emptyBlocks (n fuel : Nat) (out bs : List UInt8) :
    storedBlocks (n + fuel) out ((List.replicate n emptyBlock).flatten ++ bs) =
      storedBlocks fuel out bs := by
  induction n with
  | zero => simp
  | succ n ih =>
      rw [List.replicate_succ, List.flatten_cons, List.append_assoc, Nat.add_right_comm,
        storedBlocks_emptyBlock, ih]

theorem storedBlocks_lastBlock (fuel : Nat) {content : List UInt8}
    (h : content.length < 65536) :
    storedBlocks (fuel + 1) [] (lastBlock content ++ adlerTrailer content) =
      (content, true) := by
  set n := content.length with hn
  set bs := lastBlock content ++ adlerTrailer content with hbs
  have hlast : bs = [1] ++ (leBytes 2 n ++ (leBytes 2 (65535 - n)
      ++ (content ++ adlerTrailer content))) := by
    simp [hbs, lastBlock, hn]
  have hheader : slice bs 0 1 = [1] := by
    rw [hlast, slice, List.drop_zero]
    exact List.take_left' rfl
  have hlength : slice bs 1 2 = leBytes 2 n := by
    rw [hlast]
    exact slice_mid _ rfl (length_leBytes _ _)
  have hcomplement : slice bs 3 2 = leBytes 2 (65535 - n) := by
    rw [hlast, ← List.append_assoc [1]]
    exact slice_mid _ (by simp) (length_leBytes _ _)
  have hcontent : slice bs 5 n = content := by
    rw [hlast, ← List.append_assoc [1], ← List.append_assoc (_ ++ _)]
    exact slice_mid _ (by simp) hn.symm
  have htrailer : slice bs (5 + n) 4 = adlerTrailer content := by
    have heq : bs = lastBlock content ++ (adlerTrailer content ++ []) := by
      rw [hbs, List.append_nil]
    rw [heq]
    refine slice_mid _ ?_ ?_
    · simp only [lastBlock, List.length_append, length_leBytes, List.length_cons,
        List.length_nil]
      omega
    · simp [adlerTrailer]
  have hroom : bs.length = 9 + n := by
    rw [hlast]
    simp only [adlerTrailer, List.length_append, length_leBytes, List.length_reverse,
      List.length_cons, List.length_nil]
    omega
  rw [storedBlocks, hheader, hlength, hcomplement, leNat_leBytes_of_lt (by omega),
    leNat_leBytes_of_lt (by omega), hcontent, htrailer]
  simp [leNat_cons]
  omega

/-- A stored stream inflates back to its content. -/
theorem storedDecode_storedStream (n : Nat) {content : List UInt8}
    (h : content.length < 65536) : storedDecode (storedStream n content) = (content, true) := by
  have hfuel : (storedStream n content).length = n + ((10 + 4 * n + content.length) + 1) := by
    rw [length_storedStream]
    omega
  have hmagic : slice (storedStream n content) 0 2 = [0x78, 0x01] := by
    rw [storedStream, slice, List.drop_zero]
    exact List.take_left' rfl
  have hbody : (storedStream n content).drop 2 = (List.replicate n emptyBlock).flatten
      ++ (lastBlock content ++ adlerTrailer content) := by
    rw [storedStream]
    exact List.drop_left' rfl
  rw [storedDecode, if_pos hmagic, hfuel, hbody, storedBlocks_emptyBlocks,
    storedBlocks_lastBlock _ h]

end Ccr2004
