/-
  Texts that arrive as bytes.

  * `decodeFrom_encodeChar`: the bytes of a character are read as this character;
  * `decodeFrom_encode`: the bytes of a text are read as the text;
  * `ofChunks_eq_sized`: it does not matter into which chunks the bytes are cut.
-/
import SmtDialogue.Proofs.SourceText
import SmtDialogue.Text.Utf8

namespace SmtDialogue

namespace Utf8

variable {p : Partial} {n k : Nat} {begun : Option Partial} {rest : List ByteRead} {value : UInt8}

/-! ## The bytes of a character -/

theorem lead?_single (h : n < 0x80) : lead? n = some ⟨0, 1, n⟩ := by
  rw [lead?, if_pos h]

theorem lead?_double (h : n < 0x20) : lead? (n + 0xC0) = some ⟨1, 1, n⟩ := by
  rw [lead?, if_neg (by omega), if_neg (by omega), if_pos (by omega)]
  congr
  omega

theorem lead?_triple (h : n < 0x10) : lead? (n + 0xE0) = some ⟨2, 1, n⟩ := by
  rw [lead?, if_neg (by omega), if_neg (by omega), if_neg (by omega), if_pos (by omega)]
  congr
  omega

theorem lead?_quadruple (h : n < 0x08) : lead? (n + 0xF0) = some ⟨3, 1, n⟩ := by
  rw [lead?, if_neg (by omega), if_neg (by omega), if_neg (by omega), if_neg (by omega),
    if_pos (by omega)]
  congr
  omega

theorem extend?_tail (h : n < 0x40) :
    p.extend? (n + 0x80) = some ⟨p.missing - 1, p.taken + 1, p.bits * 0x40 + n⟩ := by
  rw [Partial.extend?, if_pos (by omega)]
  congr
  omega

theorem toNat_byte (h : n < 0x100) : (UInt8.ofNat n).toNat = n :=
  UInt8.toNat_ofNat_of_lt' h

theorem complete_eq {c : Char} (h : p.bits = c.val.toNat) : p.complete = .char c p.taken := by
  have hvalid : c.val.toNat.isValidChar := c.valid
  have hc : Char.ofNat c.val.toNat = c := Char.ofNat_toNat c
  rw [Partial.complete, h, if_pos hvalid, hc]

theorem decodeFrom_lead (h : n < 0x100) (hlead : lead? n = some p) (hp : p.missing ≠ 0) :
    decodeFrom none (.byte (.ofNat n) :: rest) = decodeFrom (some p) rest := by
  rw [decodeFrom]
  simp only [Option.elim, toNat_byte h, hlead, if_neg hp]

theorem decodeFrom_tail {missing taken bits : Nat} (h : n < 0x40) :
    decodeFrom (some ⟨missing + 2, taken, bits⟩) (.byte (.ofNat (n + 0x80)) :: rest) =
      decodeFrom (some ⟨missing + 1, taken + 1, bits * 0x40 + n⟩) rest := by
  have hbyte : n + 0x80 < 0x100 := by omega
  rw [decodeFrom]
  simp only [Option.elim, toNat_byte hbyte, extend?_tail h]
  rw [if_neg (by simp)]
  rfl

theorem decodeFrom_last {taken bits : Nat} {c : Char} (h : n < 0x40)
    (hc : bits * 0x40 + n = c.val.toNat) :
    decodeFrom (some ⟨1, taken, bits⟩) (.byte (.ofNat (n + 0x80)) :: rest) =
      .char c (taken + 1) :: decodeFrom none rest := by
  have hbyte : n + 0x80 < 0x100 := by omega
  rw [decodeFrom]
  simp only [Option.elim, toNat_byte hbyte, extend?_tail h]
  rw [if_pos (by simp), complete_eq hc]

/-- **The bytes of a character are read as this character.** -/
theorem decodeFrom_encodeChar (c : Char) (rest : List ByteRead) :
    decodeFrom none ((String.utf8EncodeChar c).map .byte ++ rest) =
      .char c c.utf8Size :: decodeFrom none rest := by
  have hlimit : c.val.toNat < 0x200000 := by
    have hvalid : c.val.toNat.isValidChar := c.valid
    rcases hvalid with h | ⟨-, h⟩ <;> omega
  rw [← String.length_utf8EncodeChar]
  fun_cases String.utf8EncodeChar c with
  | case1 v hsingle =>
    have hlead : lead? c.val.toNat = some ⟨0, 1, c.val.toNat⟩ := lead?_single (by omega)
    have hbyte : c.val.toNat < 0x100 := by omega
    simp only [List.map_cons, List.map_nil, List.cons_append, List.nil_append, decodeFrom,
      Option.elim, v, toNat_byte hbyte, hlead]
    rw [if_pos trivial, complete_eq rfl]
    rfl
  | case2 v _ hdouble =>
    have hbits : c.val.toNat / 64 % 32 * 0x40 + c.val.toNat % 64 = c.val.toNat := by omega
    exact (decodeFrom_lead (by omega) (lead?_double (by omega)) (by simp)).trans
      (decodeFrom_last (by omega) hbits)
  | case3 v _ _ htriple =>
    have hbits : (c.val.toNat / 4096 % 16 * 0x40 + c.val.toNat / 64 % 64) * 0x40 +
        c.val.toNat % 64 = c.val.toNat := by omega
    exact (decodeFrom_lead (by omega) (lead?_triple (by omega)) (by simp)).trans
      ((decodeFrom_tail (by omega)).trans (decodeFrom_last (by omega) hbits))
  | case4 v _ _ hquadruple =>
    have hbits : ((c.val.toNat / 262144 % 8 * 0x40 + c.val.toNat / 4096 % 64) * 0x40 +
        c.val.toNat / 64 % 64) * 0x40 + c.val.toNat % 64 = c.val.toNat := by omega
    exact (decodeFrom_lead (by omega) (lead?_quadruple (by omega)) (by simp)).trans
      ((decodeFrom_tail (by omega)).trans
        ((decodeFrom_tail (by omega)).trans (decodeFrom_last (by omega) hbits)))

/-! ## The bytes of a text -/

/-- **The bytes of a text are read as the text**, and decoding goes on behind it. -/
theorem decodeFrom_encode (text : List Char) (rest : List ByteRead) :
    decodeFrom none ((encode text).map .byte ++ rest) =
      Source.sized Char.utf8Size text ++ decodeFrom none rest := by
  induction text with
  | nil => rfl
  | cons c text ih =>
    rw [encode, List.flatMap_cons, List.map_append, List.append_assoc, decodeFrom_encodeChar]
    rw [encode] at ih
    rw [ih]
    rfl

theorem size_sized_utf8Size (text : List Char) :
    Source.size (Source.sized Char.utf8Size text) = (encode text).length := by
  induction text with
  | nil => rfl
  | cons c text ih =>
    rw [Source.sized_cons, Source.size_cons, ih, encode, encode, List.flatMap_cons,
      List.length_append, String.length_utf8EncodeChar]
    rfl

end Utf8

/-- **It does not matter into which chunks the bytes of a text are cut.** -/
theorem Source.ofChunks_eq_sized {chunks : List (List UInt8)} {text : List Char}
    (h : chunks.flatten = Utf8.encode text) :
    Source.ofChunks (chunks.map .bytes) = Source.sized Char.utf8Size text := by
  have hreads : (chunks.map Chunk.bytes).flatMap Chunk.reads = (Utf8.encode text).map .byte := by
    rw [← h, List.map_flatten, List.flatMap_map, List.flatMap_def]
    rfl
  have hdecode := Utf8.decodeFrom_encode text []
  rw [List.append_nil] at hdecode
  rw [Source.ofChunks, hreads, Utf8.decode, hdecode]
  exact List.append_nil _

end SmtDialogue
