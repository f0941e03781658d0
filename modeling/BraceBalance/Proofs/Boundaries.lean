import BraceBalance.Text

/-!
# Boundaries between characters

An offset is a boundary when the characters before it take that many bytes. A byte below 0x80 is a
character of its own, so a boundary stands on either side of it, and a boundary stands before every
byte that begins a character. What lies between two boundaries is a text.
-/

namespace BraceBalance.Text

/-- The bytes of characters. -/
def encode (cs : List Char) : List UInt8 := cs.flatMap String.utf8EncodeChar

@[simp] theorem encode_nil : encode [] = [] := rfl

@[simp] theorem encode_cons (c : Char) (cs : List Char) :
    encode (c :: cs) = String.utf8EncodeChar c ++ encode cs := rfl

@[simp] theorem encode_append (cs ds : List Char) : encode (cs ++ ds) = encode cs ++ encode ds :=
  List.flatMap_append

theorem encode_toList (s : String) : encode s.toList = bytes s := rfl

theorem length_encode_cons (c : Char) (cs : List Char) :
    (encode (c :: cs)).length = c.utf8Size + (encode cs).length := by
  rw [encode_cons, List.length_append, String.length_utf8EncodeChar]

theorem length_encode_eq_zero_iff {cs : List Char} : (encode cs).length = 0 ↔ cs = [] := by
  cases cs with
  | nil => simp
  | cons c cs =>
    have := c.utf8Size_pos
    rw [length_encode_cons]
    simp
    omega

theorem utf8EncodeChar_of_lt {c : Char} (h : c.toNat < 0x80) :
    String.utf8EncodeChar c = [UInt8.ofNat c.toNat] :=
  if_pos (Nat.le_of_lt_succ h)

/-- A wide character has a first byte from 0xc0 on, and the bytes after it are from 0x80 up to there. -/
theorem exists_lead {c : Char} (h : 0x80 ≤ c.toNat) :
    ∃ lead rest, String.utf8EncodeChar c = lead :: rest ∧ 0xc0 ≤ lead.toNat ∧
      ∀ b ∈ rest, 0x80 ≤ b.toNat ∧ b.toNat < 0xc0 := by
  have hwide : ¬ c.val.toNat ≤ 127 := Nat.not_le.mpr h
  simp only [String.utf8EncodeChar, if_neg hwide]
  split
  · refine ⟨_, _, rfl, ?_, ?_⟩
    · rw [UInt8.toNat_ofNat']
      omega
    · simp only [List.mem_cons, List.not_mem_nil, or_false, forall_eq, UInt8.toNat_ofNat']
      omega
  · split
    · refine ⟨_, _, rfl, ?_, ?_⟩
      · rw [UInt8.toNat_ofNat']
        omega
      · simp only [List.mem_cons, List.not_mem_nil, or_false, forall_eq_or_imp, forall_eq,
          UInt8.toNat_ofNat']
        omega
    · refine ⟨_, _, rfl, ?_, ?_⟩
      · rw [UInt8.toNat_ofNat']
        omega
      · simp only [List.mem_cons, List.not_mem_nil, or_false, forall_eq_or_imp, forall_eq,
          UInt8.toNat_ofNat']
        omega

/-- No byte of a wide character is below 0x80. -/
theorem le_toNat_of_mem_utf8EncodeChar {c : Char} (h : 0x80 ≤ c.toNat) {b : UInt8}
    (hb : b ∈ String.utf8EncodeChar c) : 0x80 ≤ b.toNat := by
  obtain ⟨lead, rest, hc, hlead, hrest⟩ := exists_lead h
  rw [hc, List.mem_cons] at hb
  obtain rfl | hb := hb
  · omega
  · exact (hrest b hb).1

/-- A character is one byte below 0x80, or none of its bytes is below. -/
theorem utf8EncodeChar_cases (c : Char) :
    (∃ b, String.utf8EncodeChar c = [b]) ∨ ∀ b ∈ String.utf8EncodeChar c, 0x80 ≤ b.toNat := by
  rcases Nat.lt_or_ge c.toNat 0x80 with hlt | hge
  · exact .inl ⟨_, utf8EncodeChar_of_lt hlt⟩
  · exact .inr fun b hb => le_toNat_of_mem_utf8EncodeChar hge hb

theorem ofNat_toNat_inj {a c : Char} (ha : a.toNat < 0x80) (hc : c.toNat < 0x80) :
    UInt8.ofNat c.toNat = UInt8.ofNat a.toNat ↔ c = a := by
  rw [← UInt8.toNat_inj, UInt8.toNat_ofNat', UInt8.toNat_ofNat', Nat.mod_eq_of_lt (by omega),
    Nat.mod_eq_of_lt (by omega), Char.toNat_inj]

/-- The byte of a character below 0x80 stands for that character alone. -/
theorem count_utf8EncodeChar {a : Char} (ha : a.toNat < 0x80) (c : Char) :
    (String.utf8EncodeChar c).count (UInt8.ofNat a.toNat) = if c = a then 1 else 0 := by
  rcases Nat.lt_or_ge c.toNat 0x80 with hlt | hge
  · rw [utf8EncodeChar_of_lt hlt, List.count_singleton]
    simp only [beq_iff_eq, ofNat_toNat_inj ha hlt]
  · have hne : c ≠ a := by
      rintro rfl
      omega
    rw [if_neg hne, List.count_eq_zero]
    intro hm
    have hle := le_toNat_of_mem_utf8EncodeChar hge hm
    rw [UInt8.toNat_ofNat', Nat.mod_eq_of_lt (by omega)] at hle
    omega

theorem count_encode {a : Char} (ha : a.toNat < 0x80) (cs : List Char) :
    (encode cs).count (UInt8.ofNat a.toNat) = cs.count a := by
  induction cs with
  | nil => rfl
  | cons c cs ih =>
    rw [encode_cons, List.count_append, count_utf8EncodeChar ha, ih, List.count_cons]
    by_cases hc : c = a <;> simp [hc, Nat.add_comm]

/-- The first `n` bytes of `cs` are the characters `front`, and `back` is what follows. -/
structure Splits (cs : List Char) (n : Nat) (front back : List Char) : Prop where
  append : cs = front ++ back
  length : (encode front).length = n

section

variable {cs front back : List Char} {n : Nat}

theorem splits_zero_iff : Splits cs 0 front back ↔ front = [] ∧ cs = back := by
  constructor
  · rintro ⟨h, hn⟩
    obtain rfl := length_encode_eq_zero_iff.mp hn
    exact ⟨rfl, h⟩
  · rintro ⟨rfl, rfl⟩
    exact ⟨rfl, rfl⟩

theorem not_splits_nil_succ : ¬ Splits [] (n + 1) front back := by
  rintro ⟨h, hn⟩
  obtain ⟨rfl, -⟩ := List.append_eq_nil_iff.mp h.symm
  cases hn

theorem splits_cons_succ_iff {c : Char} :
    Splits (c :: cs) (n + 1) front back ↔
      c.utf8Size ≤ n + 1 ∧ ∃ rest, front = c :: rest ∧ Splits cs (n + 1 - c.utf8Size) rest back := by
  constructor
  · rintro ⟨h, hn⟩
    cases front with
    | nil => cases hn
    | cons d rest =>
      obtain ⟨rfl, hrest⟩ := List.cons.inj h
      rw [length_encode_cons] at hn
      exact ⟨by omega, rest, rfl, hrest, by omega⟩
  · rintro ⟨hle, rest, rfl, h, hn⟩
    exact ⟨congrArg (c :: ·) h, by rw [length_encode_cons]; omega⟩

theorem dropBytes?_eq_some_iff : dropBytes? cs n = some back ↔ ∃ front, Splits cs n front back := by
  fun_induction dropBytes? cs n with
  | case1 cs => simp [splits_zero_iff]
  | case2 n => simp [not_splits_nil_succ]
  | case3 c cs n hle ih =>
    rw [ih]
    constructor
    · rintro ⟨rest, h⟩
      exact ⟨c :: rest, splits_cons_succ_iff.mpr ⟨hle, rest, rfl, h⟩⟩
    · rintro ⟨front, h⟩
      obtain ⟨-, rest, rfl, hrest⟩ := splits_cons_succ_iff.mp h
      exact ⟨rest, hrest⟩
  | case4 c cs n hlt => simp [splits_cons_succ_iff, hlt]

theorem takeBytesAfter?_eq_some_iff {seen taken : List Char} :
    takeBytesAfter? seen cs n = some taken ↔
      ∃ front back, Splits cs n front back ∧ taken = seen.reverse ++ front := by
  fun_induction takeBytesAfter? seen cs n with
  | case1 seen cs => simp [splits_zero_iff, eq_comm]
  | case2 seen n => simp [not_splits_nil_succ]
  | case3 seen c cs n hle ih =>
    rw [ih]
    constructor
    · rintro ⟨rest, back, h, rfl⟩
      exact ⟨c :: rest, back, splits_cons_succ_iff.mpr ⟨hle, rest, rfl, h⟩, by simp⟩
    · rintro ⟨front, back, h, rfl⟩
      obtain ⟨-, rest, rfl, hrest⟩ := splits_cons_succ_iff.mp h
      exact ⟨rest, back, hrest, by simp⟩
  | case4 seen c cs n hlt => simp [splits_cons_succ_iff, hlt]

end

section

variable {s : String} {i j n : Nat} {chars : List Char}

theorem isBoundary_iff : IsBoundary s n ↔ ∃ front back, Splits s.toList n front back := by
  rw [IsBoundary, Option.isSome_iff_exists, exists_comm]
  simp only [dropBytes?_eq_some_iff]

theorem isBoundary_zero (s : String) : IsBoundary s 0 :=
  isBoundary_iff.mpr ⟨[], s.toList, rfl, rfl⟩

theorem isBoundary_length (s : String) : IsBoundary s (bytes s).length :=
  isBoundary_iff.mpr ⟨s.toList, [], (List.append_nil _).symm, rfl⟩

theorem IsBoundary.le_length (h : IsBoundary s n) : n ≤ (bytes s).length := by
  obtain ⟨front, back, hs, rfl⟩ := isBoundary_iff.mp h
  rw [← encode_toList, hs, encode_append, List.length_append]
  omega

/-- The characters of a slice are those between two cuts of the text. -/
theorem slice?_eq_some_iff :
    slice? s i j = some chars ↔
      ∃ front back, Splits s.toList i front (chars ++ back) ∧
        Splits s.toList j (front ++ chars) back := by
  rw [slice?]
  constructor
  · intro h
    split at h
    case isFalse => cases h
    case isTrue hle =>
      obtain ⟨rest, hdrop, htake⟩ := Option.bind_eq_some_iff.mp h
      obtain ⟨front, hfront⟩ := dropBytes?_eq_some_iff.mp hdrop
      obtain ⟨taken, back, ⟨rfl, hlen⟩, rfl⟩ := takeBytesAfter?_eq_some_iff.mp htake
      refine ⟨front, back, hfront, by rw [hfront.append]; simp, ?_⟩
      simp [hlen, hfront.length]
      omega
  · rintro ⟨front, back, hi, hj⟩
    have hlen := hj.length
    rw [encode_append, List.length_append, hi.length] at hlen
    rw [if_pos (by omega), dropBytes?_eq_some_iff.mpr ⟨front, hi⟩]
    exact takeBytesAfter?_eq_some_iff.mpr ⟨chars, back, ⟨rfl, by omega⟩, rfl⟩

/-- Between two boundaries, in order, there is a slice. -/
theorem exists_slice (hi : IsBoundary s i) (hj : IsBoundary s j) (h : i ≤ j) :
    ∃ chars, slice? s i j = some chars := by
  obtain ⟨front, back, hfront⟩ := isBoundary_iff.mp hi
  obtain ⟨front', back', hfront'⟩ := isBoundary_iff.mp hj
  obtain ⟨chars, rfl, rfl⟩ | ⟨chars, rfl, rfl⟩ :=
    List.append_eq_append_iff.mp (hfront.append.symm.trans hfront'.append)
  · exact ⟨chars, slice?_eq_some_iff.mpr ⟨front, back', hfront, hfront'⟩⟩
  · have hlen := hfront.length
    rw [encode_append, List.length_append, hfront'.length] at hlen
    obtain rfl := length_encode_eq_zero_iff.mp (show (encode chars).length = 0 by omega)
    rw [List.append_nil] at hfront
    rw [← List.append_nil front'] at hfront'
    exact ⟨[], slice?_eq_some_iff.mpr ⟨front', back, hfront, hfront'⟩⟩

theorem add_length_of_slice? (h : slice? s i j = some chars) : i + (encode chars).length = j := by
  obtain ⟨front, back, hi, hj⟩ := slice?_eq_some_iff.mp h
  rw [← hi.length, ← hj.length, encode_append, List.length_append]

/-- Every byte of a text stands in one of its characters. -/
theorem exists_char_of_getElem? {cs : List Char} {b : UInt8} (h : (encode cs)[n]? = some b) :
    ∃ front c back k, cs = front ++ c :: back ∧ n = (encode front).length + k ∧
      (String.utf8EncodeChar c)[k]? = some b := by
  induction cs generalizing n with
  | nil => simp at h
  | cons c cs ih =>
    rw [encode_cons] at h
    rcases Nat.lt_or_ge n (String.utf8EncodeChar c).length with hlt | hge
    · rw [List.getElem?_append_left hlt] at h
      exact ⟨[], c, cs, n, rfl, by simp, h⟩
    · rw [List.getElem?_append_right hge] at h
      obtain ⟨front, d, back, k, rfl, hn, hb⟩ := ih h
      refine ⟨c :: front, d, back, k, rfl, ?_, hb⟩
      rw [encode_cons, List.length_append]
      omega

/-- A byte below 0x80 is a character. -/
theorem exists_splits_of_lt {b : UInt8} (h : (bytes s)[n]? = some b) (hb : b.toNat < 0x80) :
    ∃ front c back, Splits s.toList n front (c :: back) ∧ String.utf8EncodeChar c = [b] := by
  obtain ⟨front, c, back, k, hs, hn, hk⟩ := exists_char_of_getElem? h
  obtain ⟨d, hc⟩ | hhigh := utf8EncodeChar_cases c
  · rw [hc] at hk
    cases k with
    | zero =>
      obtain rfl := Option.some.inj hk
      exact ⟨front, c, back, ⟨hs, hn.symm⟩, hc⟩
    | succ k => cases hk
  · exact absurd (hhigh b (List.mem_of_getElem? hk)) (Nat.not_le.mpr hb)

theorem isBoundary_of_lt {b : UInt8} (h : (bytes s)[n]? = some b) (hb : b.toNat < 0x80) :
    IsBoundary s n := by
  obtain ⟨front, c, back, hs, -⟩ := exists_splits_of_lt h hb
  exact isBoundary_iff.mpr ⟨front, c :: back, hs⟩

theorem isBoundary_succ_of_lt {b : UInt8} (h : (bytes s)[n]? = some b) (hb : b.toNat < 0x80) :
    IsBoundary s (n + 1) := by
  obtain ⟨front, c, back, ⟨hs, hn⟩, hc⟩ := exists_splits_of_lt h hb
  refine isBoundary_iff.mpr ⟨front ++ [c], back, by rw [hs]; simp, ?_⟩
  rw [encode_append, encode_cons, hc, List.length_append, hn]
  rfl

theorem isBoundary_of_firstByte {b : UInt8} (h : (bytes s)[n]? = some b) (hb : b.IsUTF8FirstByte) :
    IsBoundary s n := by
  obtain ⟨front, c, back, k, hs, hn, hk⟩ := exists_char_of_getElem? h
  obtain ⟨hlt, rfl⟩ := List.getElem?_eq_some_iff.mp hk
  obtain rfl := UInt8.isUTF8FirstByte_getElem_utf8EncodeChar.mp hb
  exact isBoundary_iff.mpr ⟨front, c :: back, hs, hn.symm⟩

/-- A text is found in another only where a character of that other text begins. -/
theorem isBoundary_of_prefix {name : String} (hne : bytes name ≠ [])
    (h : bytes name <+: (bytes s).drop n) : IsBoundary s n := by
  rw [← encode_toList] at h hne
  cases hname : name.toList with
  | nil =>
    rw [hname] at hne
    exact absurd rfl hne
  | cons c cs =>
    have hpos : 0 < (String.utf8EncodeChar c).length := by
      rw [String.length_utf8EncodeChar]
      exact c.utf8Size_pos
    obtain ⟨rest, hrest⟩ := h
    have hfirst : (bytes s)[n]? = some (String.utf8EncodeChar c)[0] := by
      rw [← Nat.add_zero n, ← List.getElem?_drop, ← hrest, hname, encode_cons, List.append_assoc,
        List.getElem?_append_left hpos, List.getElem?_eq_getElem hpos]
    exact isBoundary_of_firstByte hfirst UInt8.isUTF8FirstByte_getElem_zero_utf8EncodeChar

end

end BraceBalance.Text
