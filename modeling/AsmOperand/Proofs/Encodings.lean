import AsmOperand.Text.Utf8

/-!
# What can be read to its end

Bytes are read to their end exactly if they are the encoding of some text, and then the text is the
one that is read. In how many blocks they are read makes no difference to that.

How much of a text is read if it is spoiled is left out here.
-/

namespace AsmOperand.Utf8

section Start
variable {b : Nat}

theorem start_one (low : b < 0x80) : start b = .char (Char.ofNat b) := by
  rw [start, if_pos low]

theorem start_two (low : 0xC2 ≤ b) (high : b < 0xE0) :
    start b = .more ⟨b - 0xC0, 1, 0x80, 0xBF⟩ := by
  rw [start, if_neg (by omega), if_neg (by omega), if_pos high]

/-- Behind the first of three bytes neither a shorter form nor a surrogate can begin. -/
theorem start_three (low : 0xE0 ≤ b) (high : b < 0xF0) : start b = .more
    ⟨b - 0xE0, 2, if b = 0xE0 then 0xA0 else 0x80, if b = 0xED then 0x9F else 0xBF⟩ := by
  rw [start, if_neg (by omega), if_neg (by omega), if_neg (by omega)]
  by_cases short : b = 0xE0
  · subst b
    rfl
  by_cases surrogate : b = 0xED
  · subst b
    rfl
  rw [if_neg short, if_neg short, if_neg surrogate, if_neg surrogate, if_pos high]

/-- Behind the first of four bytes neither a shorter form nor a code beyond the last can begin. -/
theorem start_four (low : 0xF0 ≤ b) (high : b < 0xF5) : start b = .more
    ⟨b - 0xF0, 3, if b = 0xF0 then 0x90 else 0x80, if b = 0xF4 then 0x8F else 0xBF⟩ := by
  rw [start, if_neg (by omega), if_neg (by omega), if_neg (by omega), if_neg (by omega),
    if_neg (by omega), if_neg (by omega)]
  by_cases short : b = 0xF0
  · subst b
    rfl
  by_cases last : b = 0xF4
  · subst b
    rfl
  rw [if_neg short, if_neg short, if_neg last, if_neg last, if_pos (by omega)]

theorem start_bad (never : 0x80 ≤ b ∧ b < 0xC2 ∨ 0xF5 ≤ b) : start b = .bad := by
  rw [start, if_neg (by omega)]
  by_cases later : b < 0xC2
  · rw [if_pos later]
  · rw [if_neg later, if_neg (by omega), if_neg (by omega), if_neg (by omega), if_neg (by omega),
      if_neg (by omega), if_neg (by omega), if_neg (by omega)]

theorem class_of_byte (b : Nat) : b < 0x80 ∨ (0xC2 ≤ b ∧ b < 0xE0) ∨ (0xE0 ≤ b ∧ b < 0xF0) ∨
    (0xF0 ≤ b ∧ b < 0xF5) ∨ (0x80 ≤ b ∧ b < 0xC2 ∨ 0xF5 ≤ b) := by
  omega

end Start

/-- The bytes complete the character that is open, or a whole one if none is. -/
inductive Completes : Option Partial → List UInt8 → Char → Prop where
  | last {p : Option Partial} {b : UInt8} {c : Char} (h : step p b.toNat = .char c) :
    Completes p [b] c
  | more {p : Option Partial} {b : UInt8} {q : Partial} {bs : List UInt8} {c : Char}
    (h : step p b.toNat = .more q) (rest : Completes (some q) bs c) : Completes p (b :: bs) c

/-- The bytes that follow one taken like this complete the character with it. -/
def Step.Leaves : Step → List UInt8 → Char → Prop
  | .char d, bs, c => bs = [] ∧ c = d
  | .more q, bs, c => Completes (some q) bs c
  | .bad, _, _ => False

section Later
variable {bits missing low high b : Nat}

theorem next_char (inside : low ≤ b ∧ b ≤ high) :
    Partial.next ⟨bits, 1, low, high⟩ b = .char (Char.ofNat (bits * 64 + (b - 0x80))) := by
  simp only [Partial.next, inside, and_self, if_true, Nat.le_refl]

theorem next_more (inside : low ≤ b ∧ b ≤ high) : Partial.next ⟨bits, missing + 2, low, high⟩ b =
    .more ⟨bits * 64 + (b - 0x80), missing + 1, 0x80, 0xBF⟩ := by
  have open' : ¬missing + 2 ≤ 1 := by omega
  simp only [Partial.next, inside, and_self, if_true, if_neg open']
  rfl

theorem next_bad (outside : ¬(low ≤ b ∧ b ≤ high)) :
    Partial.next ⟨bits, missing, low, high⟩ b = .bad := if_neg outside

end Later

section Completes
variable {bits low high : Nat} {bs : List UInt8} {c : Char}

/-- What the first byte is taken for decides about the others. -/
theorem completes_cons (p : Option Partial) {b : UInt8} {s : Step} (taken : step p b.toNat = s) :
    Completes p (b :: bs) c ↔ s.Leaves bs c := by
  subst taken
  constructor
  · rintro (⟨h⟩ | ⟨h, rest⟩)
    · rw [h]
      exact ⟨rfl, rfl⟩
    · rw [h]
      exact rest
  · cases taken : step p b.toNat with
    | char d =>
      rintro ⟨rfl, rfl⟩
      exact .last taken
    | more q => exact .more taken
    | bad => exact False.elim

theorem completes_one : Completes (some ⟨bits, 1, low, high⟩) bs c ↔ ∃ b : UInt8, bs = [b] ∧
    low ≤ b.toNat ∧ b.toNat ≤ high ∧ c = Char.ofNat (bits * 64 + (b.toNat - 0x80)) := by
  constructor
  · intro h
    cases bs with
    | nil => cases h
    | cons b rest =>
      by_cases inside : low ≤ b.toNat ∧ b.toNat ≤ high
      · obtain ⟨rfl, same⟩ := (completes_cons (some _) (next_char inside)).mp h
        exact ⟨b, rfl, inside.1, inside.2, same⟩
      · exact ((completes_cons (some _) (next_bad inside)).mp h).elim
  · rintro ⟨b, rfl, above, below, same⟩
    exact (completes_cons (some _) (next_char ⟨above, below⟩)).mpr ⟨rfl, same⟩

theorem completes_more {m : Nat} : Completes (some ⟨bits, m + 2, low, high⟩) bs c ↔
    ∃ (b : UInt8) (rest : List UInt8), bs = b :: rest ∧ low ≤ b.toNat ∧ b.toNat ≤ high ∧
      Completes (some ⟨bits * 64 + (b.toNat - 0x80), m + 1, 0x80, 0xBF⟩) rest c := by
  constructor
  · intro h
    cases bs with
    | nil => cases h
    | cons b rest =>
      by_cases inside : low ≤ b.toNat ∧ b.toNat ≤ high
      · exact ⟨b, rest, rfl, inside.1, inside.2, (completes_cons (some _) (next_more inside)).mp h⟩
      · exact ((completes_cons (some _) (next_bad inside)).mp h).elim
  · rintro ⟨b, rest, rfl, above, below, later⟩
    exact (completes_cons (some _) (next_more ⟨above, below⟩)).mpr later

/-- How many bytes a character has, and where the second one is limited. -/
theorem completes_none : Completes none bs c ↔ ∃ (b : UInt8) (rest : List UInt8), bs = b :: rest ∧
    (b.toNat < 0x80 ∧ rest = [] ∧ c = Char.ofNat b.toNat ∨
      0xC2 ≤ b.toNat ∧ b.toNat < 0xE0 ∧
        Completes (some ⟨b.toNat - 0xC0, 1, 0x80, 0xBF⟩) rest c ∨
      0xE0 ≤ b.toNat ∧ b.toNat < 0xF0 ∧ Completes (some ⟨b.toNat - 0xE0, 2,
        if b.toNat = 0xE0 then 0xA0 else 0x80, if b.toNat = 0xED then 0x9F else 0xBF⟩) rest c ∨
      0xF0 ≤ b.toNat ∧ b.toNat < 0xF5 ∧ Completes (some ⟨b.toNat - 0xF0, 3,
        if b.toNat = 0xF0 then 0x90 else 0x80, if b.toNat = 0xF4 then 0x8F else 0xBF⟩) rest c) := by
  constructor
  · intro h
    cases bs with
    | nil => cases h
    | cons b rest =>
      refine ⟨b, rest, rfl, ?_⟩
      rcases class_of_byte b.toNat with low | ⟨low, high⟩ | ⟨low, high⟩ | ⟨low, high⟩ | never
      · exact .inl ⟨low, (completes_cons none (start_one low)).mp h⟩
      · exact .inr (.inl ⟨low, high, (completes_cons none (start_two low high)).mp h⟩)
      · exact .inr (.inr (.inl ⟨low, high, (completes_cons none (start_three low high)).mp h⟩))
      · exact .inr (.inr (.inr ⟨low, high, (completes_cons none (start_four low high)).mp h⟩))
      · exact ((completes_cons none (start_bad never)).mp h).elim
  · rintro ⟨b, rest, rfl, h⟩
    rcases h with ⟨low, whole⟩ | ⟨low, high, later⟩ | ⟨low, high, later⟩ | ⟨low, high, later⟩
    · exact (completes_cons none (start_one low)).mpr whole
    · exact (completes_cons none (start_two low high)).mpr later
    · exact (completes_cons none (start_three low high)).mpr later
    · exact (completes_cons none (start_four low high)).mpr later

end Completes

/-- The encoding of a character, told apart by its code. -/
theorem encoding_eq (c : Char) : String.utf8EncodeChar c =
    if c.toNat ≤ 0x7F then [.ofNat c.toNat]
    else if c.toNat ≤ 0x7FF then [.ofNat (c.toNat / 64 % 32 + 192), .ofNat (c.toNat % 64 + 128)]
    else if c.toNat ≤ 0xFFFF then [.ofNat (c.toNat / 4096 % 16 + 224),
      .ofNat (c.toNat / 64 % 64 + 128), .ofNat (c.toNat % 64 + 128)]
    else [.ofNat (c.toNat / 262144 % 8 + 240), .ofNat (c.toNat / 4096 % 64 + 128),
      .ofNat (c.toNat / 64 % 64 + 128), .ofNat (c.toNat % 64 + 128)] := rfl

theorem completes_encoding (c : Char) : Completes none (String.utf8EncodeChar c) c := by
  have valid : c.toNat < 0xD800 ∨ 0xDFFF < c.toNat ∧ c.toNat < 0x110000 := c.valid
  have code {n : Nat} (same : n = c.toNat) : c = Char.ofNat n := by rw [same, Char.ofNat_toNat]
  rw [encoding_eq, completes_none]
  by_cases one : c.toNat ≤ 0x7F
  · rw [if_pos one]
    refine ⟨_, _, rfl, .inl ⟨?_, rfl, code ?_⟩⟩
    all_goals
      rw [UInt8.toNat_ofNat']
      omega
  rw [if_neg one]
  by_cases two : c.toNat ≤ 0x7FF
  · rw [if_pos two]
    refine ⟨_, _, rfl, .inr (.inl ⟨?_, ?_, completes_one.mpr ⟨_, rfl, ?_, ?_, code ?_⟩⟩)⟩
    all_goals
      simp only [UInt8.toNat_ofNat']
      omega
  rw [if_neg two]
  by_cases three : c.toNat ≤ 0xFFFF
  · rw [if_pos three]
    refine ⟨_, _, rfl, .inr (.inr (.inl ⟨?_, ?_, completes_more.mpr ⟨_, _, rfl, ?_, ?_,
      completes_one.mpr ⟨_, rfl, ?_, ?_, code ?_⟩⟩⟩))⟩
    all_goals
      simp only [UInt8.toNat_ofNat']
      try split
      all_goals omega
  · rw [if_neg three]
    refine ⟨_, _, rfl, .inr (.inr (.inr ⟨?_, ?_, completes_more.mpr ⟨_, _, rfl, ?_, ?_,
      completes_more.mpr ⟨_, _, rfl, ?_, ?_,
        completes_one.mpr ⟨_, rfl, ?_, ?_, code ?_⟩⟩⟩⟩))⟩
    all_goals
      simp only [UInt8.toNat_ofNat']
      try split
      all_goals omega

theorem eq_encoding_of_completes {bs : List UInt8} {c : Char} (h : Completes none bs c) :
    bs = String.utf8EncodeChar c := by
  have byte {b : UInt8} {n : Nat} (same : b.toNat = n % 2 ^ 8) : b = .ofNat n :=
    UInt8.toNat_inj.mp (same.trans UInt8.toNat_ofNat'.symm)
  have code {n : Nat} (valid : n < 0xD800 ∨ 0xDFFF < n ∧ n < 0x110000) (same : c = Char.ofNat n) :
      c.toNat = n := by
    rw [same, Char.ofNat, dif_pos valid]
    rfl
  obtain ⟨b₀, rest, rfl, kinds⟩ := completes_none.mp h
  rw [encoding_eq]
  rcases kinds with one | ⟨low, high, later⟩ | ⟨low, high, later⟩ | ⟨low, high, later⟩
  · obtain ⟨low, rfl, same⟩ := one
    have here := code (by omega) same
    rw [if_pos (by omega), here, UInt8.ofNat_toNat]
  · obtain ⟨b₁, rfl, above, below, same⟩ := completes_one.mp later
    have here := code (by omega) same
    rw [if_neg (by omega), if_pos (by omega), List.cons.injEq, List.cons.injEq]
    refine ⟨byte ?_, byte ?_, rfl⟩
    all_goals omega
  · obtain ⟨b₁, rest₁, rfl, above, below, later₁⟩ := completes_more.mp later
    obtain ⟨b₂, rfl, above₂, below₂, same⟩ := completes_one.mp later₁
    have short : 0x80 ≤ b₁.toNat ∧ (b₀.toNat = 0xE0 → 0xA0 ≤ b₁.toNat) := by
      split at above <;> omega
    have surrogate : b₁.toNat ≤ 0xBF ∧ (b₀.toNat = 0xED → b₁.toNat ≤ 0x9F) := by
      split at below <;> omega
    have here := code (by omega) same
    rw [if_neg (by omega), if_neg (by omega), if_pos (by omega), List.cons.injEq, List.cons.injEq,
      List.cons.injEq]
    refine ⟨byte ?_, byte ?_, byte ?_, rfl⟩
    all_goals omega
  · obtain ⟨b₁, rest₁, rfl, above, below, later₁⟩ := completes_more.mp later
    obtain ⟨b₂, rest₂, rfl, above₂, below₂, later₂⟩ := completes_more.mp later₁
    obtain ⟨b₃, rfl, above₃, below₃, same⟩ := completes_one.mp later₂
    have short : 0x80 ≤ b₁.toNat ∧ (b₀.toNat = 0xF0 → 0x90 ≤ b₁.toNat) := by
      split at above <;> omega
    have last : b₁.toNat ≤ 0xBF ∧ (b₀.toNat = 0xF4 → b₁.toNat ≤ 0x8F) := by
      split at below <;> omega
    have here := code (by omega) same
    rw [if_neg (by omega), if_neg (by omega), if_neg (by omega), List.cons.injEq, List.cons.injEq,
      List.cons.injEq, List.cons.injEq]
    refine ⟨byte ?_, byte ?_, byte ?_, byte ?_, rfl⟩
    all_goals omega

theorem block?_of_completes {p : Option Partial} {bs : List UInt8} {c : Char}
    (h : Completes p bs c) (rest : List UInt8) :
    block? p (bs ++ rest) = (block? none rest).map fun (t, q) => (c :: t, q) := by
  induction h with
  | last h => simp only [List.singleton_append, block?, h]
  | more h later ih => simp only [List.cons_append, block?, h, ih]

theorem completes_of_block? {bs : List UInt8} {p : Option Partial} {t : Text}
    (h : block? p bs = some (t, none)) : (p = none ∧ bs = [] ∧ t = []) ∨
      ∃ us rest c t', bs = us ++ rest ∧ t = c :: t' ∧ Completes p us c ∧
        block? none rest = some (t', none) := by
  induction bs generalizing p t with
  | nil =>
    cases h
    exact .inl ⟨rfl, rfl, rfl⟩
  | cons b bs ih =>
    rw [block?] at h
    split at h
    · cases h
    · rename_i q taken
      rcases ih h with ⟨none, _⟩ | ⟨us, rest, c, t', rfl, rfl, later, further⟩
      · cases none
      · exact .inr ⟨b :: us, rest, c, t', rfl, rfl, .more taken later, further⟩
    · rename_i c taken
      obtain ⟨⟨t', q⟩, further, same⟩ := Option.map_eq_some_iff.mp h
      cases same
      exact .inr ⟨[b], bs, c, t', rfl, rfl, .last taken, further⟩

/-- The bytes are the encoding of the text. -/
def Encodes (t : Text) (bs : List UInt8) : Prop := bs = t.flatMap String.utf8EncodeChar

instance (t : Text) (bs : List UInt8) : Decidable (Encodes t bs) :=
  inferInstanceAs (Decidable (_ = _))

theorem block?_eq_some_iff {bs : List UInt8} {t : Text} :
    block? none bs = some (t, none) ↔ Encodes t bs := by
  constructor
  · intro h
    induction t generalizing bs with
    | nil =>
      rcases completes_of_block? h with ⟨_, none, _⟩ | ⟨_, _, _, _, _, some, _⟩
      · exact none
      · cases some
    | cons c t ih =>
      rcases completes_of_block? h with ⟨_, _, none⟩ | ⟨us, rest, _, _, rfl, some, here, further⟩
      · cases none
      · cases some
        rw [Encodes, List.flatMap_cons, eq_encoding_of_completes here, ih further]
  · rintro rfl
    induction t with
    | nil => rfl
    | cons c t ih =>
      rw [List.flatMap_cons, block?_of_completes (completes_encoding c), ih]
      rfl

theorem block?_append (p : Option Partial) (bs cs : List UInt8) :
    block? p (bs ++ cs) = (block? p bs).bind fun (t, q) =>
      (block? q cs).map fun (u, s) => (t ++ u, s) := by
  induction bs generalizing p with
  | nil => exact Option.map_id'.symm
  | cons b bs ih =>
    rw [List.cons_append, block?, block?]
    cases step p b.toNat with
    | bad => rfl
    | more q => exact ih (some q)
    | char c =>
      simp only [ih none]
      cases block? none bs with
      | none => rfl
      | some r => exact Option.map_map ..

/-- However the bytes are cut, they are read to the end if they can be read at once. -/
theorem blocks_eq_iff {p : Option Partial} {bss : List (List UInt8)} {t : Text} :
    blocks p bss = ⟨t, true⟩ ↔ block? p bss.flatten = some (t, none) := by
  induction bss generalizing p t with
  | nil =>
    rw [blocks, Reading.mk.injEq, List.flatten_nil, block?, Option.some.injEq, Prod.mk.injEq,
      Option.isNone_iff_eq_none]
  | cons bs bss ih =>
    rw [blocks, List.flatten_cons, block?_append]
    cases block? p bs with
    | none => simp
    | some r =>
      obtain ⟨u, q⟩ := r
      constructor
      · intro same
        obtain ⟨text, whole⟩ := Reading.mk.inj same
        have rest : blocks q bss = ⟨(blocks q bss).text, true⟩ := by rw [← whole]
        simp only [Option.bind_some, ih.mp rest, Option.map_some, text]
      · intro read
        obtain ⟨⟨v, s⟩, rest, same⟩ := Option.map_eq_some_iff.mp read
        cases same
        simp only [ih.mpr rest]

theorem flatten_cutBlocks (n : Nat) (bs : List UInt8) : (cutBlocks n bs).flatten = bs := by
  fun_induction cutBlocks n bs with
  | case1 bs empty => exact (List.isEmpty_iff.mp empty).symm
  | case2 bs more ih => rw [List.flatten_cons, ih, List.take_append_drop]

/-- A text is read to its end exactly if the bytes are its encoding. -/
theorem read_eq_iff {bs : List UInt8} {t : Text} : read bs = ⟨t, true⟩ ↔ Encodes t bs := by
  rw [read, blocks_eq_iff, flatten_cutBlocks, block?_eq_some_iff]

theorem isWhole_read_iff {bs : List UInt8} : (read bs).isWhole = true ↔ ∃ t, Encodes t bs := by
  constructor
  · intro whole
    refine ⟨(read bs).text, read_eq_iff.mp ?_⟩
    rw [← whole]
  · rintro ⟨t, encodes⟩
    rw [read_eq_iff.mpr encodes]

instance (bs : List UInt8) : Decidable (∃ t, Encodes t bs) :=
  decidable_of_iff _ isWhole_read_iff

end AsmOperand.Utf8
