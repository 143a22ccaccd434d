import GrowthOrder.Batch

/-!
# A text is the same in every encoding

A source file is UTF-8, with or without a mark, or UTF-16 in one of two byte orders. The decoder is
a left inverse of all four encoders, for every text that does not itself begin with a byte order
mark. Each encoder writes a character at a time, so it is enough that the decoder reads the bytes of
one character back in front of any rest.
-/
namespace GrowthOrder

/-! ## UTF-8 -/

namespace Utf8

theorem toNat_valid (c : Char) :
    c.toNat < 0xd800 ∨ 0xdfff < c.toNat ∧ c.toNat < 0x110000 := c.valid

/-- The byte that carries the lowest six bits of a number behind the first byte. -/
def continuation (v : Nat) : UInt8 :=
  UInt8.ofNat (v % 64 + 128)

theorem toNat_continuation (v : Nat) : (continuation v).toNat = v % 64 + 128 := by
  rw [continuation, UInt8.toNat_ofNat']
  omega

theorem continuation_mem (v : Nat) : 0x80 ≤ continuation v ∧ continuation v ≤ 0xbf := by
  rw [UInt8.le_iff_toNat_le, UInt8.le_iff_toNat_le, toNat_continuation]
  change 128 ≤ v % 64 + 128 ∧ v % 64 + 128 ≤ 191
  omega

/-- Reading the byte of the lowest six bits behind the bits above them. -/
theorem trail_continuation {n bits v : Nat} {low high : UInt8} {rest : List UInt8}
    (hbits : v / 64 = bits) (h : low ≤ continuation v ∧ continuation v ≤ high) :
    trail (n + 1) low high bits (continuation v :: rest) =
      ((trail n 0x80 0xbf v rest).1, (trail n 0x80 0xbf v rest).2 + 1) := by
  have hv : bits * 64 + ((continuation v).toNat - 0x80) = v := by
    rw [toNat_continuation]
    omega
  rw [trail, if_pos h, hv]

/-- What a first byte begins, by its number. -/
theorem lead?_eq (b : UInt8) : lead? b =
    if 0xc2 ≤ b.toNat ∧ b.toNat ≤ 0xdf then some ⟨1, 0x80, 0xbf, b.toNat - 0xc0⟩
    else if b.toNat = 0xe0 then some ⟨2, 0xa0, 0xbf, 0⟩
    else if b.toNat = 0xed then some ⟨2, 0x80, 0x9f, 0xd⟩
    else if 0xe1 ≤ b.toNat ∧ b.toNat ≤ 0xef then some ⟨2, 0x80, 0xbf, b.toNat - 0xe0⟩
    else if b.toNat = 0xf0 then some ⟨3, 0x90, 0xbf, 0⟩
    else if 0xf1 ≤ b.toNat ∧ b.toNat ≤ 0xf3 then some ⟨3, 0x80, 0xbf, b.toNat - 0xf0⟩
    else if b.toNat = 0xf4 then some ⟨3, 0x80, 0x8f, 4⟩
    else none := by
  simp only [lead?, UInt8.le_iff_toNat_le, ← UInt8.toNat_inj]
  rfl

theorem lead?_two {v : Nat} {b : UInt8} (hlow : 0x80 ≤ v) (hhigh : v < 0x800)
    (hb : b.toNat = v / 64 + 0xc0) : lead? b = some ⟨1, 0x80, 0xbf, v / 64⟩ := by
  rw [lead?_eq, hb, if_pos (by omega), Nat.add_sub_cancel]

/-- The first byte of three narrows the range of the second: shorter forms and the numbers that
stand for halves of pairs are left out. -/
theorem lead?_three {v : Nat} {b : UInt8} (hlow : 0x800 ≤ v) (hhigh : v < 0x10000)
    (hv : v < 0xd800 ∨ 0xdfff < v) (hb : b.toNat = v / 4096 + 0xe0) :
    ∃ low high, lead? b = some ⟨2, low, high, v / 4096⟩ ∧
      low ≤ continuation (v / 64) ∧ continuation (v / 64) ≤ high := by
  have hsecond := continuation_mem (v / 64)
  rw [lead?_eq, hb, if_neg (by omega)]
  by_cases h0 : v / 4096 = 0
  · refine ⟨0xa0, 0xbf, by rw [if_pos (by omega), h0], ?_, hsecond.2⟩
    rw [UInt8.le_iff_toNat_le, toNat_continuation]
    change 160 ≤ _
    omega
  rw [if_neg (by omega)]
  by_cases h13 : v / 4096 = 13
  · refine ⟨0x80, 0x9f, by rw [if_pos (by omega), h13], hsecond.1, ?_⟩
    rw [UInt8.le_iff_toNat_le, toNat_continuation]
    change _ ≤ 159
    omega
  rw [if_neg (by omega), if_pos (by omega), Nat.add_sub_cancel]
  exact ⟨0x80, 0xbf, rfl, hsecond⟩

theorem lead?_four {v : Nat} {b : UInt8} (hlow : 0x10000 ≤ v) (hhigh : v < 0x110000)
    (hb : b.toNat = v / 262144 + 0xf0) :
    ∃ low high, lead? b = some ⟨3, low, high, v / 262144⟩ ∧
      low ≤ continuation (v / 4096) ∧ continuation (v / 4096) ≤ high := by
  have hsecond := continuation_mem (v / 4096)
  rw [lead?_eq, hb, if_neg (by omega), if_neg (by omega), if_neg (by omega), if_neg (by omega)]
  by_cases h0 : v / 262144 = 0
  · refine ⟨0x90, 0xbf, by rw [if_pos (by omega), h0], ?_, hsecond.2⟩
    rw [UInt8.le_iff_toNat_le, toNat_continuation]
    change 144 ≤ _
    omega
  rw [if_neg (by omega)]
  by_cases h4 : v / 262144 = 4
  · refine ⟨0x80, 0x8f, by rw [if_neg (by omega), if_pos (by omega), h4], hsecond.1, ?_⟩
    rw [UInt8.le_iff_toNat_le, toNat_continuation]
    change _ ≤ 143
    omega
  rw [if_pos (by omega), Nat.add_sub_cancel]
  exact ⟨0x80, 0xbf, rfl, hsecond⟩

theorem piece_of_lead {b : UInt8} {lead : Lead} {rest : List UInt8} {c : Char} {n : Nat}
    (hb : 0x80 ≤ b.toNat) (hlead : lead? b = some lead)
    (htrail : trail lead.trailing lead.low lead.high lead.bits rest = (some c.toNat, n)) :
    piece b rest = (some c, n) := by
  have hlarge : ¬ b < 0x80 := by
    rw [UInt8.lt_iff_toNat_lt]
    change ¬ b.toNat < 128
    omega
  rw [piece, if_neg hlarge, hlead]
  dsimp only
  rw [htrail, Option.map_some, Char.ofNat_toNat]

section

variable {c : Char}

theorem piece_one (hhigh : c.toNat < 0x80) (rest : List UInt8) :
    piece (UInt8.ofNat c.toNat) rest = (some c, 0) := by
  have hb : (UInt8.ofNat c.toNat).toNat = c.toNat := by
    rw [UInt8.toNat_ofNat']
    omega
  have hsmall : UInt8.ofNat c.toNat < 0x80 := by
    rw [UInt8.lt_iff_toNat_lt, hb]
    exact hhigh
  rw [piece, if_pos hsmall, hb, Char.ofNat_toNat]

theorem piece_two (hlow : 0x80 ≤ c.toNat) (hhigh : c.toNat < 0x800) (rest : List UInt8) :
    piece (UInt8.ofNat (c.toNat / 64 % 32 + 192)) (continuation c.toNat :: rest) = (some c, 1) := by
  have hb : (UInt8.ofNat (c.toNat / 64 % 32 + 192)).toNat = c.toNat / 64 + 0xc0 := by
    rw [UInt8.toNat_ofNat']
    omega
  refine piece_of_lead (by omega) (lead?_two hlow hhigh hb) ?_
  rw [trail_continuation rfl (continuation_mem _)]
  rfl

theorem piece_three (hlow : 0x800 ≤ c.toNat) (hhigh : c.toNat < 0x10000) (rest : List UInt8) :
    piece (UInt8.ofNat (c.toNat / 4096 % 16 + 224))
      (continuation (c.toNat / 64) :: continuation c.toNat :: rest) = (some c, 2) := by
  have hvalid := toNat_valid c
  have hb : (UInt8.ofNat (c.toNat / 4096 % 16 + 224)).toNat = c.toNat / 4096 + 0xe0 := by
    rw [UInt8.toNat_ofNat']
    omega
  obtain ⟨low, high, hlead, hsecond⟩ := lead?_three hlow hhigh (by omega) hb
  refine piece_of_lead (by omega) hlead ?_
  dsimp only
  rw [trail_continuation (by omega) hsecond, trail_continuation rfl (continuation_mem _)]
  rfl

theorem piece_four (hlow : 0x10000 ≤ c.toNat) (rest : List UInt8) :
    piece (UInt8.ofNat (c.toNat / 262144 % 8 + 240)) (continuation (c.toNat / 4096) ::
      continuation (c.toNat / 64) :: continuation c.toNat :: rest) = (some c, 3) := by
  have hvalid := toNat_valid c
  have hb : (UInt8.ofNat (c.toNat / 262144 % 8 + 240)).toNat = c.toNat / 262144 + 0xf0 := by
    rw [UInt8.toNat_ofNat']
    omega
  obtain ⟨low, high, hlead, hsecond⟩ := lead?_four hlow (by omega) hb
  refine piece_of_lead (by omega) hlead ?_
  dsimp only
  rw [trail_continuation (by omega) hsecond, trail_continuation (by omega) (continuation_mem _),
    trail_continuation rfl (continuation_mem _)]
  rfl

end

/-- The bytes of a character are one piece, whatever follows. -/
theorem piece_utf8EncodeChar (c : Char) (rest : List UInt8) :
    ∃ b bs, String.utf8EncodeChar c = b :: bs ∧ piece b (bs ++ rest) = (some c, bs.length) := by
  rw [String.utf8EncodeChar.eq_1, Char.toNat_val]
  split
  · next h1 => exact ⟨_, [], rfl, piece_one (by omega) rest⟩
  · next h1 =>
    split
    · next h2 => exact ⟨_, [_], rfl, piece_two (by omega) (by omega) rest⟩
    · next h2 =>
      split
      · next h3 => exact ⟨_, [_, _], rfl, piece_three (by omega) (by omega) rest⟩
      · next h3 => exact ⟨_, [_, _, _], rfl, piece_four (by omega) rest⟩

theorem pieces_utf8EncodeChar (c : Char) (rest : List UInt8) :
    pieces (String.utf8EncodeChar c ++ rest) = some c :: pieces rest := by
  obtain ⟨b, bs, hbytes, hpiece⟩ := piece_utf8EncodeChar c rest
  rw [hbytes, List.cons_append, pieces, hpiece]
  simp

theorem pieces_encode (text : List Char) :
    pieces (text.flatMap String.utf8EncodeChar) = text.map some := by
  induction text with
  | nil => rw [List.flatMap_nil, pieces, List.map_nil]
  | cons c text ih => rw [List.flatMap_cons, pieces_utf8EncodeChar, ih, List.map_cons]

theorem decode?_encode (text : String) : decode? (encode text) = some text := by
  have hall : ∀ l : List Char, (l.map some).mapM id = some l := by
    intro l
    induction l with
    | nil => rfl
    | cons c l ih => simp [ih]
  rw [decode?, encode, pieces_encode, hall, Option.map_some, String.ofList_toList]

end Utf8

/-! ## UTF-16 -/

namespace Utf16

/-- The units of a character: one, or the two of a pair. -/
def units (c : Char) : List Nat :=
  if c.toNat < 0x10000 then [c.toNat]
  else [0xd800 + (c.toNat - 0x10000) / 0x400, 0xdc00 + (c.toNat - 0x10000) % 0x400]

/-- The bytes of a unit. -/
def ByteOrder.bytes (order : ByteOrder) (u : Nat) : List UInt8 :=
  match order with
  | little => [UInt8.ofNat u, UInt8.ofNat (u / 256)]
  | big => [UInt8.ofNat (u / 256), UInt8.ofNat u]

/-- The bytes of a text. -/
def encode (order : ByteOrder) (text : String) : List UInt8 :=
  text.toList.flatMap fun c => (units c).flatMap order.bytes

/-- A unit is read back from its bytes. -/
theorem exists_bytes {u : Nat} (order : ByteOrder) (hu : u < 0x10000) :
    ∃ a b, order.bytes u = [a, b] ∧ order.unit a b = u := by
  cases order with
  | little =>
    refine ⟨_, _, rfl, ?_⟩
    rw [ByteOrder.unit, UInt8.toNat_ofNat', UInt8.toNat_ofNat']
    omega
  | big =>
    refine ⟨_, _, rfl, ?_⟩
    rw [ByteOrder.unit, UInt8.toNat_ofNat', UInt8.toNat_ofNat']
    omega

theorem chars_single {order : ByteOrder} {u : Nat} (hu : u < 0xd800 ∨ 0xdfff < u ∧ u < 0x10000)
    (rest : List UInt8) : chars order (order.bytes u ++ rest) = Char.ofNat u :: chars order rest := by
  obtain ⟨a, b, hbytes, hunit⟩ := exists_bytes order (show u < 0x10000 by omega)
  have hhigh : isHigh u = false := by
    simp [isHigh]
    omega
  have hlow : isLow u = false := by
    simp [isLow]
    omega
  rw [hbytes, List.cons_append, List.cons_append, List.nil_append, chars.eq_def]
  simp [hunit, hhigh, hlow]

theorem chars_pair {order : ByteOrder} {u v : Nat} (hu : 0xd800 ≤ u ∧ u < 0xdc00)
    (hv : 0xdc00 ≤ v ∧ v < 0xe000) (rest : List UInt8) :
    chars order (order.bytes u ++ (order.bytes v ++ rest)) = joined u v :: chars order rest := by
  obtain ⟨a, b, hbytes, hunit⟩ := exists_bytes order (show u < 0x10000 by omega)
  obtain ⟨c, d, hbytes', hunit'⟩ := exists_bytes order (show v < 0x10000 by omega)
  have hhigh : isHigh u = true := by simp [isHigh, hu]
  have hlow : isLow v = true := by simp [isLow, hv]
  rw [hbytes, hbytes', List.cons_append, List.cons_append, List.nil_append, chars.eq_def]
  simp [hunit, hhigh, hunit', hlow]

theorem chars_units (order : ByteOrder) (c : Char) (rest : List UInt8) :
    chars order ((units c).flatMap order.bytes ++ rest) = c :: chars order rest := by
  have hvalid := Utf8.toNat_valid c
  unfold units
  split
  · next hsmall =>
    rw [List.flatMap_singleton, chars_single (by omega), Char.ofNat_toNat]
  · next hlarge =>
    rw [List.flatMap_cons, List.flatMap_singleton, List.append_assoc,
      chars_pair (by omega) (by omega), joined]
    have hjoined : 0x10000 + (0xd800 + (c.toNat - 0x10000) / 0x400 - 0xd800) * 0x400 +
        (0xdc00 + (c.toNat - 0x10000) % 0x400 - 0xdc00) = c.toNat := by omega
    rw [hjoined, Char.ofNat_toNat]

theorem decode_encode (order : ByteOrder) (text : String) :
    decode order (encode order text) = text := by
  have hchars : ∀ l : List Char,
      chars order (l.flatMap fun c => (units c).flatMap order.bytes) = l := by
    intro l
    induction l with
    | nil => rfl
    | cons c l ih => rw [List.flatMap_cons, chars_units, ih]
  rw [decode, encode, hchars, String.ofList_toList]

end Utf16

/-! ## Files -/

namespace Encoding

/-- How a text is written to a file. -/
inductive Form
  /-- UTF-8 without a mark. -/
  | plain
  /-- UTF-8 behind a mark. -/
  | marked
  /-- UTF-16 behind a mark. -/
  | wide (order : Utf16.ByteOrder)

/-- The bytes of a file. -/
def Form.bytes (text : String) : Form → List UInt8
  | plain => Utf8.encode text
  | marked => 0xef :: 0xbb :: 0xbf :: Utf8.encode text
  | wide .little => 0xff :: 0xfe :: Utf16.encode .little text
  | wide .big => 0xfe :: 0xff :: Utf16.encode .big text

theorem withoutMark_eq {text : String} (h : text.toList.head? ≠ some '\ufeff') :
    withoutMark text = text := by
  unfold withoutMark
  split
  · next rest hlist =>
    rw [hlist] at h
    exact absurd rfl h
  · rfl

theorem withoutMark_marked (text : String) : withoutMark ("\ufeff" ++ text) = text := by
  have hlist : ("\ufeff" ++ text).toList = '\ufeff' :: text.toList := by
    rw [String.toList_append]
    rfl
  rw [withoutMark, hlist]
  exact String.ofList_toList

/-- UTF-8 is not taken for UTF-16: its first byte is never one of a mark of UTF-16. -/
theorem decodeMarked_encode (text : String) : decodeMarked (Utf8.encode text) = text := by
  have hplain : decodeMarked (Utf8.encode text) =
      (Utf8.decode? (Utf8.encode text)).getD (decodeFaulty (Utf8.encode text)) := by
    cases hlist : text.toList with
    | nil =>
      rw [Utf8.encode, hlist]
      rfl
    | cons c cs =>
      obtain ⟨b, bs, hbytes, hpiece⟩ := Utf8.piece_utf8EncodeChar c
        (cs.flatMap String.utf8EncodeChar)
      have hff : b ≠ 0xff := by
        rintro rfl
        cases hpiece
      have hfe : b ≠ 0xfe := by
        rintro rfl
        cases hpiece
      rw [Utf8.encode, hlist, List.flatMap_cons, hbytes, List.cons_append, decodeMarked.eq_3]
      · exact fun rest h => hff (List.cons.inj h).1
      · exact fun rest h => hfe (List.cons.inj h).1
  rw [hplain, Utf8.decode?_encode, Option.getD_some]

theorem decode_marked (text : String) : decode (Form.marked.bytes text) = text := by
  have hmark : Form.marked.bytes text = Utf8.encode ("\ufeff" ++ text) := by
    rw [Utf8.encode, String.toList_append, List.flatMap_append]
    rfl
  rw [hmark, decode, decodeMarked_encode, withoutMark_marked]

theorem decodeMarked_wide (order : Utf16.ByteOrder) (text : String) :
    decodeMarked ((Form.wide order).bytes text) = text := by
  cases order with
  | little => exact Utf16.decode_encode .little text
  | big => exact Utf16.decode_encode .big text

/-- A text that does not begin with a byte order mark is read back from each of its forms, so that
the report on a file depends on the text and not on its form. -/
theorem decode_bytes {text : String} (h : text.toList.head? ≠ some '\ufeff') (form : Form) :
    decode (form.bytes text) = text ∧
      ∀ (s : Settings) (path : String), FileReport.ofBytes s path (.ok (form.bytes text)) =
        ⟨path, (FileReport.analyze s text path).mapError .unanalyzed⟩ := by
  have hdecode : decode (form.bytes text) = text := by
    cases form with
    | plain => rw [Form.bytes, decode, decodeMarked_encode, withoutMark_eq h]
    | marked => exact decode_marked text
    | wide order => rw [decode, decodeMarked_wide, withoutMark_eq h]
  refine ⟨hdecode, fun s path => ?_⟩
  rw [FileReport.ofBytes, hdecode]

/-- Characters of two and four bytes, the latter a pair of units. -/
theorem decode_bytes_pair :
    "é😀".toList.head? ≠ some '\ufeff' ∧
    Form.plain.bytes "é😀" = [0xc3, 0xa9, 0xf0, 0x9f, 0x98, 0x80] ∧
    (Form.wide .big).bytes "é😀" = [0xfe, 0xff, 0x00, 0xe9, 0xd8, 0x3d, 0xde, 0x00] ∧
    decode [0xc3, 0xa9, 0xf0, 0x9f, 0x98, 0x80] = "é😀" ∧
    decode [0xfe, 0xff, 0x00, 0xe9, 0xd8, 0x3d, 0xde, 0x00] = "é😀" := by
  have hhead : "é😀".toList.head? ≠ some '\ufeff' := by decide
  have hplain : Form.plain.bytes "é😀" = [0xc3, 0xa9, 0xf0, 0x9f, 0x98, 0x80] := by decide
  have hwide : (Form.wide .big).bytes "é😀" =
      [0xfe, 0xff, 0x00, 0xe9, 0xd8, 0x3d, 0xde, 0x00] := by decide
  exact ⟨hhead, hplain, hwide, hplain ▸ (decode_bytes hhead .plain).1,
    hwide ▸ (decode_bytes hhead (.wide .big)).1⟩

end Encoding

end GrowthOrder
