import ArchiveWriter.Sizing
import ArchiveWriter.StringTable
import ArchiveWriter.Timestamps

/-!
# The layout of an archive

Every record `write_archive_to_stream` writes after the magic has even length, so every
header starts on an even offset; in the BSD family every payload starts on an 8-byte
boundary, although `compute_member_data` pads each name from a `pos` that leaves out the
magic and the symbol table. Both rest on headers of exactly sixty bytes, which the fixed
widths of the header fields give only for values that fit them, and on a BSD symbol-table
member whose length is a multiple of 8. The values are the timestamps (`TimestampsFit`),
the modes, the size field of each BSD member header (`bsdSizesFit`), and the size fields of
the string table and the symbol table.
-/

namespace ArchiveWriter

open ArchiveKind


/-! ## Header lengths

The fixed part of a header is sixty bytes when every value fits its field: twelve digits
of timestamp, eight octal digits of mode, ten digits of size, and in a BSD header thirteen
digits for the length of the name and its padding, which follow the sixty bytes. The uid
and gid fields always fit, since they are taken modulo one million. -/

theorem ascii_fmtLeft {s : List Char} (h : Ascii s) (w : Nat) : Ascii (fmtLeft w s) := by
  intro c hc
  rcases List.mem_append.1 hc with hc | hc
  · exact h c hc
  · rw [List.eq_of_mem_replicate hc]; rfl

theorem length_utf8_fmtLeft {s : List Char} (h : Ascii s) (w : Nat) :
    (utf8 (fmtLeft w s)).length = max w s.length := by
  rw [length_utf8_of_ascii (ascii_fmtLeft h w), length_fmtLeft]

theorem length_printRestOfMemberHeader (mtime uid gid perms size : Nat) :
    (printRestOfMemberHeader mtime uid gid perms size).length =
      max 12 (decimal mtime).length + 12 + max 8 (octal perms).length +
        max 10 (decimal size).length + 2 := by
  have hu : (decimal (uid % 1000000)).length ≤ 6 :=
    length_decimal_le (Nat.mod_lt _ (by norm_num)) (by norm_num)
  have hg : (decimal (gid % 1000000)).length ≤ 6 :=
    length_decimal_le (Nat.mod_lt _ (by norm_num)) (by norm_num)
  have hq : (utf8 "`\n".data).length = 2 := rfl
  simp only [printRestOfMemberHeader, utf8_append, List.length_append, hq,
    length_utf8_fmtLeft (decimal_ascii _), length_utf8_fmtLeft (octal_ascii _)]
  omega

theorem length_printRestOfMemberHeader_of_lt {mtime perms size : Nat} (hm : mtime < 10 ^ 12)
    (hp : perms < 8 ^ 8) (hs : size < 10 ^ 10) (uid gid : Nat) :
    (printRestOfMemberHeader mtime uid gid perms size).length = 44 := by
  have := length_decimal_le hm (by norm_num)
  have := length_octal_le hp (by norm_num)
  have := length_decimal_le hs (by norm_num)
  rw [length_printRestOfMemberHeader]
  omega

theorem length_printGnuSmallMemberHeader_ge (name : String) (mtime uid gid perms size : Nat) :
    60 ≤ (printGnuSmallMemberHeader name mtime uid gid perms size).length := by
  have := length_le_length_utf8 (fmtLeft 16 (name.data ++ ['/']))
  simp only [printGnuSmallMemberHeader, List.length_append, length_printRestOfMemberHeader,
    length_fmtLeft] at this ⊢
  omega

theorem length_printGnuSmallMemberHeader {name : String} (ha : Ascii name.data)
    (hn : byteLen name < 16) {mtime perms size : Nat} (hm : mtime < 10 ^ 12)
    (hp : perms < 8 ^ 8) (hs : size < 10 ^ 10) (uid gid : Nat) :
    (printGnuSmallMemberHeader name mtime uid gid perms size).length = 60 := by
  have ha' : Ascii (name.data ++ ['/']) := by
    intro c hc
    rcases List.mem_append.1 hc with hc | hc
    · exact ha c hc
    · rw [List.mem_singleton.1 hc]; rfl
  rw [byteLen, length_utf8_of_ascii ha] at hn
  simp only [printGnuSmallMemberHeader, List.length_append, length_utf8_fmtLeft ha',
    length_printRestOfMemberHeader_of_lt hm hp hs, List.length_singleton]
  omega

theorem length_gnuLongHeader_ge (offset mtime uid gid perms size : Nat) :
    60 ≤ (utf8 ('/' :: fmtLeft 15 (decimal offset)) ++
      printRestOfMemberHeader mtime uid gid perms size).length := by
  simp only [List.length_append, utf8_cons, length_utf8_fmtLeft (decimal_ascii _),
    length_printRestOfMemberHeader]
  have : (String.utf8EncodeChar '/').length = 1 := rfl
  omega

theorem length_gnuLongHeader {offset : Nat} (ho : offset < 10 ^ 15) {mtime perms size : Nat}
    (hm : mtime < 10 ^ 12) (hp : perms < 8 ^ 8) (hs : size < 10 ^ 10) (uid gid : Nat) :
    (utf8 ('/' :: fmtLeft 15 (decimal offset)) ++
      printRestOfMemberHeader mtime uid gid perms size).length = 60 := by
  have := length_decimal_le ho (by norm_num)
  simp only [List.length_append, utf8_cons, length_utf8_fmtLeft (decimal_ascii _),
    length_printRestOfMemberHeader_of_lt hm hp hs]
  have : (String.utf8EncodeChar '/').length = 1 := rfl
  omega

theorem length_printBsdMemberHeader (pos : Nat) (name : String) (mtime uid gid perms size : Nat) :
    let nameWithPadding := byteLen name + offsetToAlignment (pos + 60 + byteLen name) 8
    (printBsdMemberHeader pos name mtime uid gid perms size).length =
      3 + max 13 (decimal nameWithPadding).length +
        (printRestOfMemberHeader mtime uid gid perms (nameWithPadding + size)).length +
        nameWithPadding := by
  have h3 : (utf8 "#1/".data).length = 3 := rfl
  simp only [printBsdMemberHeader, utf8_append, List.length_append, h3,
    length_utf8_fmtLeft (decimal_ascii _), List.length_replicate, byteLen]
  omega

theorem length_printBsdMemberHeader_ge (pos : Nat) (name : String) (mtime uid gid perms size : Nat) :
    60 + byteLen name + offsetToAlignment (pos + 60 + byteLen name) 8 ≤
      (printBsdMemberHeader pos name mtime uid gid perms size).length := by
  rw [length_printBsdMemberHeader, length_printRestOfMemberHeader]
  omega

/-- The value a BSD header prints in its size field: the name, its padding to an 8-byte
boundary of the offset `pos` it is printed at, and the `size` bytes after them. -/
def bsdSizeField (pos : Nat) (name : String) (size : Nat) : Nat :=
  byteLen name + offsetToAlignment (pos + 60 + byteLen name) 8 + size

theorem length_printBsdMemberHeader_of_lt {pos : Nat} {name : String} {mtime perms size : Nat}
    (hm : mtime < 10 ^ 12) (hp : perms < 8 ^ 8)
    (hs : byteLen name + offsetToAlignment (pos + 60 + byteLen name) 8 + size < 10 ^ 10)
    (uid gid : Nat) :
    (printBsdMemberHeader pos name mtime uid gid perms size).length =
      60 + byteLen name + offsetToAlignment (pos + 60 + byteLen name) 8 := by
  have h13 := length_decimal_le
    (lt_of_le_of_lt (Nat.le_add_right _ size) (hs.trans (by norm_num))) (by norm_num : 0 < 13)
  rw [length_printBsdMemberHeader, length_printRestOfMemberHeader_of_lt hm hp hs]
  omega

theorem printBsdMemberHeader_aligned {pos : Nat} {name : String} {mtime perms size : Nat}
    (hm : mtime < 10 ^ 12) (hp : perms < 8 ^ 8)
    (hs : byteLen name + offsetToAlignment (pos + 60 + byteLen name) 8 + size < 10 ^ 10)
    (uid gid : Nat) :
    (pos + (printBsdMemberHeader pos name mtime uid gid perms size).length) % 8 = 0 := by
  rw [length_printBsdMemberHeader_of_lt hm hp hs]
  have := add_offsetToAlignment_mod (by norm_num : 0 < 8) (pos + 60 + byteLen name)
  omega

theorem length_computeStringTable_record {names : List UInt8} (hn : names.length < 10 ^ 10 - 1) :
    (computeStringTable names).record.length =
      60 + names.length + offsetToAlignment names.length 2 := by
  have hpad : offsetToAlignment names.length 2 < 2 := Nat.mod_lt _ (by norm_num)
  have := length_decimal_le (by omega : names.length + offsetToAlignment names.length 2 < 10 ^ 10)
    (by norm_num)
  have hq : (utf8 "`\n".data).length = 2 := rfl
  have h48 : (utf8 (fmtLeft 48 "//".data)).length = 48 := rfl
  simp only [computeStringTable, MemberData.record, List.length_append, utf8_append, h48,
    length_utf8_fmtLeft (decimal_ascii _), hq]
  split
  · simp only [List.length_singleton]; omega
  · simp only [List.length_nil]; omega

/-! ## The symbol-table member -/

theorem computeSymbolTableSizeAndPad_mod {kind : ArchiveKind} (hk : kind.Writable)
    {offsetSize numSyms : Nat} (ho : offsetSize = 4 ∨ offsetSize = 8) {names : List UInt8}
    {size pad : Nat}
    (h : computeSymbolTableSizeAndPad kind numSyms offsetSize names = .ok (size, pad)) :
    size % (if kind.bsd then 8 else 2) = 0 := by
  rw [computeSymbolTableSizeAndPad_ok hk ho] at h
  cases h
  exact add_offsetToAlignment_mod (by split <;> norm_num) _

theorem symbolTableName_gnu {kind : ArchiveKind} (hb : kind.bsd = false) :
    Ascii (symbolTableName kind).data ∧ byteLen (symbolTableName kind) < 16 := by
  unfold symbolTableName Ascii
  simp only [hb, Bool.false_eq_true, if_false]
  split <;> decide

/-- The value the symbol-table header after the magic prints in its size field. -/
def symbolTableSizeField (kind : ArchiveKind) (size : Nat) : Nat :=
  if kind.bsd then bsdSizeField 8 (symbolTableName kind) size else size

theorem symbolTableHeader_fits {kind : ArchiveKind} {size : Nat}
    (h : symbolTableSizeField kind size < 10 ^ 10) :
    (symbolTableHeader kind 8 size).length + size < 10 ^ 10 + 60 := by
  unfold symbolTableSizeField at h
  unfold symbolTableHeader
  cases hb : kind.bsd
  · simp only [hb, Bool.false_eq_true, if_false] at h ⊢
    rw [length_printGnuSmallMemberHeader (symbolTableName_gnu hb).1 (symbolTableName_gnu hb).2
      (by norm_num) (by norm_num) h]
    omega
  · simp only [hb, if_true] at h ⊢
    rw [length_printBsdMemberHeader_of_lt (by norm_num) (by norm_num) h]
    unfold bsdSizeField at h
    omega

theorem symbolTable_end_mod {kind : ArchiveKind} (hk : kind.Writable) {numSyms : Nat}
    {names : List UInt8} {size pad : Nat}
    (hsize : computeSymbolTableSizeAndPad kind numSyms (offsetSizeOf kind) names = .ok (size, pad))
    (hfit : symbolTableSizeField kind size < 10 ^ 10) :
    (8 + (symbolTableHeader kind 8 size).length + size) % (if kind.bsd then 8 else 2) = 0 := by
  have hmod := computeSymbolTableSizeAndPad_mod hk
    (by unfold offsetSizeOf; split <;> simp) hsize
  unfold symbolTableSizeField at hfit
  unfold symbolTableHeader
  cases hb : kind.bsd
  · simp only [hb, Bool.false_eq_true, if_false] at hmod hfit ⊢
    rw [length_printGnuSmallMemberHeader (symbolTableName_gnu hb).1 (symbolTableName_gnu hb).2
      (by norm_num) (by norm_num) hfit]
    omega
  · simp only [hb, if_true] at hmod hfit ⊢
    have := @printBsdMemberHeader_aligned 8 (symbolTableName kind) 0 0 size (by norm_num)
      (by norm_num) hfit 0 0
    omega

/-! ## One member -/

theorem gnu_of_writable {kind : ArchiveKind} (hk : kind.Writable) (hb : kind.bsd = false) :
    kind = Gnu ∨ kind = Gnu64 := by
  cases kind <;> simp_all [ArchiveKind.Writable, ArchiveKind.bsd]

theorem printMemberHeader_length_ge {kind : ArchiveKind} (hk : kind.Writable) {pos : Nat}
    {st st' : List UInt8} {mn mn' : String → Option Nat} {thin : Bool} {m : NewArchiveMember}
    {mtime size : Nat} {header : List UInt8}
    (h : printMemberHeader pos st mn kind thin m mtime size = .ok (header, st', mn')) :
    60 ≤ header.length := by
  cases hb : kind.bsd
  · rcases printMemberHeader_gnu (gnu_of_writable hk hb) h with
      ⟨-, rfl, -⟩ | ⟨-, -, rfl, -⟩ | ⟨-, -, -, -, rfl, -⟩ | ⟨-, -, -, rfl, -⟩
    · exact length_printGnuSmallMemberHeader_ge ..
    all_goals exact length_gnuLongHeader_ge ..
  · rw [printMemberHeader_bsd hk hb] at h
    cases h
    exact le_trans (by omega) (length_printBsdMemberHeader_ge ..)

theorem printMemberHeader_table {kind : ArchiveKind} (hk : kind.Writable) {pos : Nat}
    {st st' : List UInt8} {mn mn' : String → Option Nat} {thin : Bool} {m : NewArchiveMember}
    {mtime size : Nat} {header : List UInt8}
    (h : printMemberHeader pos st mn kind thin m mtime size = .ok (header, st', mn')) :
    st <+: st' ∧ ((∀ n K, mn n = some K → K < st.length) →
      ∀ n K, mn' n = some K → K < st'.length) := by
  cases hb : kind.bsd
  · have hentry : 0 < (stringTableEntry m.memberName).length := by
      simp [stringTableEntry, Char.utf8Size_pos]
    rcases printMemberHeader_gnu (gnu_of_writable hk hb) h with
      ⟨-, -, rfl, rfl⟩ | ⟨-, -, -, rfl, rfl⟩ | ⟨-, -, p, -, -, rfl, rfl⟩ | ⟨-, -, -, -, rfl, rfl⟩
    · exact ⟨List.prefix_refl _, id⟩
    · refine ⟨List.prefix_append _ _, fun hmn n K hK => ?_⟩
      have := hmn n K hK
      simp only [List.length_append]
      omega
    · exact ⟨List.prefix_refl _, id⟩
    · refine ⟨List.prefix_append _ _, fun hmn n K hK => ?_⟩
      simp only [List.length_append]
      by_cases hn : n = m.memberName
      · subst hn
        simp only [Function.update_same, Option.some.injEq] at hK
        omega
      · rw [Function.update_noteq hn] at hK
        have := hmn n K hK
        omega
  · rw [printMemberHeader_bsd hk hb] at h
    cases h
    exact ⟨List.prefix_refl _, id⟩

theorem printMemberHeader_length {kind : ArchiveKind} (hk : kind.Writable) {pos : Nat}
    {st st' : List UInt8} {mn mn' : String → Option Nat} {thin : Bool} {m : NewArchiveMember}
    {mtime size : Nat} {header : List UInt8}
    (h : printMemberHeader pos st mn kind thin m mtime size = .ok (header, st', mn'))
    (hmn : ∀ n K, mn n = some K → K < st.length) (hst : st.length < 10 ^ 15)
    (hm : mtime < 10 ^ 12) (hp : m.perms.toNat < 8 ^ 8) (hs : size < 10 ^ 10)
    (hbsd : kind.bsd = true → bsdSizeField pos m.memberName size < 10 ^ 10)
    (hname : kind.bsd = false → useStringTable thin m.memberName = false →
      Ascii m.memberName.data) :
    if kind.bsd then (pos + header.length) % 8 = 0 else header.length = 60 := by
  cases hb : kind.bsd
  · simp only [Bool.false_eq_true, if_false]
    rcases printMemberHeader_gnu (gnu_of_writable hk hb) h with
      ⟨hu, rfl, -⟩ | ⟨-, -, rfl, -⟩ | ⟨-, -, p, hpK, rfl, -⟩ | ⟨-, -, -, rfl, -⟩
    · have hn : byteLen m.memberName < 16 := by
        simp only [useStringTable, Bool.or_eq_false_iff, decide_eq_false_iff_not] at hu
        omega
      exact length_printGnuSmallMemberHeader (hname hb hu) hn hm hp hs _ _
    · exact length_gnuLongHeader (by omega) hm hp hs _ _
    · have := hmn _ _ hpK
      exact length_gnuLongHeader (by omega) hm hp hs _ _
    · exact length_gnuLongHeader (by omega) hm hp hs _ _
  · simp only [if_true]
    rw [printMemberHeader_bsd hk hb] at h
    cases h
    exact printBsdMemberHeader_aligned hm hp (hbsd hb) _ _

theorem memberMtime_lt {unique : Bool} {fc fc' : String → Option Nat} {m : NewArchiveMember}
    {t B : Nat} {ns : List String} (h : memberMtime unique fc m = .ok (t, fc'))
    (hfc : ∀ n c, fc n = some c → c + (m.memberName :: ns).count n ≤ B)
    (hm : unique = false → m.mtime.toNat < B) :
    t < B ∧ ∀ n c, fc' n = some c → c + ns.count n ≤ B := by
  unfold memberMtime at h
  split at h
  · split at h
    · rename_i c hc
      cases h
      have := hfc _ _ hc
      rw [List.count_cons_self] at this
      refine ⟨by omega, fun n c' hn => ?_⟩
      by_cases hnm : n = m.memberName
      · subst hnm
        simp only [Function.update_same, Option.some.injEq] at hn
        omega
      · rw [Function.update_noteq hnm] at hn
        rw [← List.count_cons_of_ne hnm ns]
        exact hfc n c' hn
    · cases h
  · rename_i hu
    cases h
    exact ⟨hm (Bool.eq_false_iff.2 hu), fun n c hn =>
      (Nat.add_le_add_left (List.count_le_count_cons n _ ns) c).trans (hfc n c hn)⟩

theorem computeMember_record {parse : ObjectParser} {kind : ArchiveKind} (hk : kind.Writable)
    {thin needSymbols uniqueTimestamps : Bool} {s s' : Acc} {m : NewArchiveMember}
    {d : MemberData}
    (h : computeMember parse kind thin needSymbols uniqueTimestamps s m = .ok (d, s')) :
    s'.pos = s.pos + d.record.length ∧ (d.data.length + d.padding.length) % 2 = 0 ∧
      (isDarwin kind = true → (d.data.length + d.padding.length) % 8 = 0) ∧
      60 ≤ d.header.length := by
  obtain ⟨mtime, hdata, hpad, -, -, hhdr, -, hpos⟩ := computeMember_ok h
  refine ⟨by rw [hpos, MemberData.record, List.length_append, List.length_append], ?_, ?_,
    printMemberHeader_length_ge hk hhdr⟩
  · rw [hdata, hpad, List.length_replicate, ← Nat.add_assoc]
    exact add_offsetToAlignment_mod (by norm_num) _
  · intro hd
    rw [hdata, hpad, List.length_replicate]
    simp only [hd, if_true]
    have h8 := add_offsetToAlignment_mod (by norm_num : 0 < 8)
      (if thin = true then [] else m.buf).length
    have h0 : offsetToAlignment ((if thin = true then [] else m.buf).length +
        offsetToAlignment (if thin = true then [] else m.buf).length 8) 2 = 0 := by
      unfold offsetToAlignment; omega
    rw [h0]
    omega

/-! ## The member loop -/

/-- Whether the size field of every BSD header the member loop prints from `pos` on fits its
ten digits, each member's `pos` following from the records before it. -/
def bsdSizesFit (kind : ArchiveKind) (thin : Bool) : Nat → List NewArchiveMember → Bool
  | _, [] => true
  | pos, m :: ms =>
    decide (bsdSizeField pos m.memberName (memberSize kind thin m) < 10 ^ 10) &&
      bsdSizesFit kind thin (pos + 60 + bsdSizeField pos m.memberName (memberSize kind thin m) +
        offsetToAlignment (memberSize kind thin m) 2) ms

theorem bsdSizesFit_cons {kind : ArchiveKind} {thin : Bool} {pos : Nat} {m : NewArchiveMember}
    {ms : List NewArchiveMember} :
    bsdSizesFit kind thin pos (m :: ms) = true ↔
      bsdSizeField pos m.memberName (memberSize kind thin m) < 10 ^ 10 ∧
      bsdSizesFit kind thin (pos + 60 + bsdSizeField pos m.memberName (memberSize kind thin m) +
        offsetToAlignment (memberSize kind thin m) 2) ms = true := by
  simp [bsdSizesFit]

/-- Every timestamp the member loop prints fits the twelve digits of its field: with unique
timestamps the number of members of each name, else each member's own timestamp. -/
def TimestampsFit (uniqueTimestamps : Bool) (ms : List NewArchiveMember) : Prop :=
  ∀ m ∈ ms, if uniqueTimestamps then (ms.map (·.memberName)).count m.memberName < 10 ^ 12
    else m.mtime.toNat < 10 ^ 12

instance (uniqueTimestamps : Bool) (ms : List NewArchiveMember) :
    Decidable (TimestampsFit uniqueTimestamps ms) :=
  inferInstanceAs (Decidable (∀ m ∈ ms, _))

/-- A state of the member loop from which every header still to be printed has fields that
fit their widths: the counts behind Darwin's timestamps leave room for the members of their
name still to come, the members' own timestamps (when they are used) and modes fit, GNU names
written inline are ASCII, `member_names` points into the string table, and every BSD size
field fits. -/
structure LoopFits (kind : ArchiveKind) (thin uniqueTimestamps : Bool) (s : Acc)
    (ms : List NewArchiveMember) : Prop where
  counts : ∀ n c, s.filenameCount n = some c → c + (ms.map (·.memberName)).count n ≤ 10 ^ 12
  members : ∀ m ∈ ms, (uniqueTimestamps = false → m.mtime.toNat < 10 ^ 12) ∧
    m.perms.toNat < 8 ^ 8
  inline : kind.bsd = false → ∀ m ∈ ms, useStringTable thin m.memberName = false →
    Ascii m.memberName.data
  names : ∀ n K, s.memberNames n = some K → K < s.stringTable.length
  sizes : kind.bsd = true → bsdSizesFit kind thin s.pos ms = true

theorem lowerCounts_le_one {c : String → Option Nat} {n : String} {k : Nat}
    (h : lowerCounts c n = some k) : k ≤ 1 := by
  simp only [lowerCounts, Option.map_eq_some'] at h
  obtain ⟨j, -, rfl⟩ := h
  split <;> omega

theorem mem_of_lowerCounts_countNames {ms : List NewArchiveMember} {n : String} {k : Nat}
    (h : lowerCounts (countNames ms) n = some k) : n ∈ ms.map (·.memberName) := by
  by_contra hn
  simp [lowerCounts, countNames, foldl_countNames, hn] at h

theorem loopFits_init {kind : ArchiveKind} {thin uniqueTimestamps : Bool}
    {newMembers : List NewArchiveMember} (htime : TimestampsFit uniqueTimestamps newMembers)
    (hperms : ∀ m ∈ newMembers, m.perms.toNat < 8 ^ 8)
    (hinline : kind.bsd = false → ∀ m ∈ newMembers, useStringTable thin m.memberName = false →
      Ascii m.memberName.data)
    (hsizes : kind.bsd = true → bsdSizesFit kind thin 0 newMembers = true) :
    LoopFits kind thin uniqueTimestamps (initAcc (if uniqueTimestamps then
      lowerCounts (countNames newMembers) else fun _ => none)) newMembers := by
  refine ⟨fun n c hc => ?_, fun m hm => ⟨fun hu => by simpa [hu] using htime m hm, hperms m hm⟩,
    hinline, fun n K hK => (by cases hK), hsizes⟩
  cases uniqueTimestamps
  · cases hc
  · have := lowerCounts_le_one hc
    obtain ⟨m, hm, rfl⟩ := List.mem_map.1 (mem_of_lowerCounts_countNames hc)
    have := htime m hm
    simp only [if_true] at this
    omega

/-- One step of the loop from a state whose fields fit: the header has the length that
keeps the layout, and the next state fits for the members left. -/
theorem computeMember_fits {parse : ObjectParser} {kind : ArchiveKind} (hk : kind.Writable)
    {thin needSymbols uniqueTimestamps : Bool} {s s' : Acc} {m : NewArchiveMember}
    {ms : List NewArchiveMember} {d : MemberData}
    (h : computeMember parse kind thin needSymbols uniqueTimestamps s m = .ok (d, s'))
    (hf : LoopFits kind thin uniqueTimestamps s (m :: ms))
    (hst : s.stringTable.length < 10 ^ 15) :
    (if kind.bsd then (s.pos + d.header.length) % 8 = 0 else d.header.length = 60) ∧
      LoopFits kind thin uniqueTimestamps s' ms := by
  obtain ⟨mtime, hdata, hpad, hsize, hmt, hhdr, -, hpos⟩ := computeMember_ok h
  have hm := hf.members m (List.mem_cons_self ..)
  obtain ⟨hmt', hcounts⟩ := memberMtime_lt hmt hf.counts hm.1
  have hsizes := fun hb => bsdSizesFit_cons.1 (hf.sizes hb)
  refine ⟨printMemberHeader_length hk hhdr hf.names hst hmt' hm.2
      (lt_of_le_of_lt hsize (by norm_num [maxMemberSize])) (fun hb => (hsizes hb).1)
      fun hb hu => hf.inline hb m (List.mem_cons_self ..) hu,
    ⟨hcounts, fun m' hm' => hf.members m' (List.mem_cons_of_mem _ hm'),
      fun hb m' hm' => hf.inline hb m' (List.mem_cons_of_mem _ hm'),
      (printMemberHeader_table hk hhdr).2 hf.names, fun hb => ?_⟩⟩
  -- the next `pos`: a BSD header is sixty bytes and the name with its padding
  rw [printMemberHeader_bsd hk hb] at hhdr
  simp only [Except.ok.injEq, Prod.mk.injEq] at hhdr
  have hhead : d.header = printBsdMemberHeader s.pos m.memberName mtime m.uid.toNat m.gid.toNat
      m.perms.toNat (memberSize kind thin m) := hhdr.1.symm
  have hpos' : s'.pos = s.pos + 60 + bsdSizeField s.pos m.memberName (memberSize kind thin m) +
      offsetToAlignment (memberSize kind thin m) 2 := by
    rw [hpos, hhead, length_printBsdMemberHeader_of_lt hmt' hm.2 (hsizes hb).1, hdata, hpad,
      List.length_replicate]
    simp only [bsdSizeField, memberSize]
    omega
  exact hpos' ▸ (hsizes hb).2

theorem computeMembers_stringTable_extends {parse : ObjectParser} {kind : ArchiveKind}
    (hk : kind.Writable) {thin needSymbols uniqueTimestamps : Bool} :
    ∀ {s s' : Acc} {ms : List NewArchiveMember} {ds : List MemberData},
    computeMembers parse kind thin needSymbols uniqueTimestamps s ms = .ok (ds, s') →
    s.stringTable <+: s'.stringTable
  | s, s', [], ds, h => by cases h; exact List.prefix_refl _
  | s, s', m :: ms, ds, h => by
    obtain ⟨d, s₁, ds', h₁, h₂, rfl⟩ := computeMembers_cons_ok h
    obtain ⟨_, -, -, -, -, hhdr, -, -⟩ := computeMember_ok h₁
    exact (printMemberHeader_table hk hhdr).1.trans (computeMembers_stringTable_extends hk h₂)

theorem computeMembers_records {parse : ObjectParser} {kind : ArchiveKind}
    (hk : kind.Writable) {thin needSymbols uniqueTimestamps : Bool} :
    ∀ {s s' : Acc} {ms : List NewArchiveMember} {ds : List MemberData},
    computeMembers parse kind thin needSymbols uniqueTimestamps s ms = .ok (ds, s') →
    ∀ d ∈ ds, (d.data.length + d.padding.length) % 2 = 0 ∧
      (isDarwin kind = true → (d.data.length + d.padding.length) % 8 = 0) ∧
      60 ≤ d.header.length
  | s, s', [], ds, h => by cases h; simp
  | s, s', m :: ms, ds, h => by
    obtain ⟨d, s₁, ds', h₁, h₂, rfl⟩ := computeMembers_cons_ok h
    intro d' hd'
    rcases List.mem_cons.1 hd' with rfl | hd'
    · exact (computeMember_record hk h₁).2
    · exact computeMembers_records hk h₂ d' hd'

theorem computeMembers_data {parse : ObjectParser} {kind : ArchiveKind}
    {thin needSymbols uniqueTimestamps : Bool} :
    ∀ {s s' : Acc} {ms : List NewArchiveMember} {ds : List MemberData},
    computeMembers parse kind thin needSymbols uniqueTimestamps s ms = .ok (ds, s') →
    ds.map MemberData.data = ms.map fun m => if thin then [] else m.buf
  | s, s', [], ds, h => by cases h; rfl
  | s, s', m :: ms, ds, h => by
    obtain ⟨d, s₁, ds', h₁, h₂, rfl⟩ := computeMembers_cons_ok h
    obtain ⟨_, hdata, -⟩ := computeMember_ok h₁
    rw [List.map_cons, List.map_cons, hdata, computeMembers_data h₂]

theorem header_even {kind : ArchiveKind} {pos len : Nat} (hpos : pos % 2 = 0)
    (h : if kind.bsd then (pos + len) % 8 = 0 else len = 60) : len % 2 = 0 := by
  split at h <;> omega

/-- From a state whose fields fit, every record the loop prints has even length, and in the
BSD family every payload starts on an 8-byte boundary of any offset `base` that agrees with
the loop's `pos` modulo 8. -/
theorem computeMembers_layout {parse : ObjectParser} {kind : ArchiveKind} (hk : kind.Writable)
    {thin needSymbols uniqueTimestamps : Bool} :
    ∀ {s s' : Acc} {ms : List NewArchiveMember} {ds : List MemberData} {base : Nat},
    computeMembers parse kind thin needSymbols uniqueTimestamps s ms = .ok (ds, s') →
    LoopFits kind thin uniqueTimestamps s ms → s'.stringTable.length < 10 ^ 15 →
    s.pos % 2 = 0 → base % 8 = s.pos % 8 →
    (∀ d ∈ ds, d.record.length % 2 = 0) ∧
      (kind.bsd = true → ∀ p ∈ ds.zip (recordOffsets base ds), (p.2 + p.1.header.length) % 8 = 0) := by
  intro s s' ms
  induction ms generalizing s with
  | nil => intro ds base h; cases h; simp
  | cons m ms ih =>
    intro ds base h hf hst hpos hbase
    obtain ⟨d, s₁, ds', h₁, h₂, rfl⟩ := computeMembers_cons_ok h
    have hst₁ := (computeMembers_stringTable_extends hk h₂).length_le
    obtain ⟨_, -, -, -, -, hh₁, -, -⟩ := computeMember_ok h₁
    have hst₀ := (printMemberHeader_table hk hh₁).1.length_le
    obtain ⟨hhdr, hf₁⟩ := computeMember_fits hk h₁ hf (by omega)
    obtain ⟨hpos₁, heven, -, -⟩ := computeMember_record hk h₁
    have hdeven : d.record.length % 2 = 0 := by
      have := header_even hpos hhdr
      simp only [MemberData.record, List.length_append]
      omega
    obtain ⟨ih₁, ih₂⟩ := ih h₂ hf₁ hst (by omega)
      (show (base + d.record.length) % 8 = s₁.pos % 8 by omega)
    refine ⟨fun d' hd' => ?_, fun hb p hp => ?_⟩
    · rcases List.mem_cons.1 hd' with rfl | hd'
      · exact hdeven
      · exact ih₁ d' hd'
    · simp only [recordOffsets, List.zip_cons_cons, List.mem_cons] at hp
      rcases hp with rfl | hp
      · simp only [hb, if_true] at hhdr
        show (base + d.header.length) % 8 = 0
        omega
      · exact ih₂ hb p hp

/-! ## The archive, record by record -/

theorem numSymbols_withStringTable (st : List UInt8) (ret : List MemberData) :
    numSymbols (if st.isEmpty then ret else computeStringTable st :: ret) = numSymbols ret := by
  split <;> simp [computeStringTable]

theorem writeArchiveToStream_records {parse : ObjectParser} {newMembers : List NewArchiveMember}
    {writeSymtab : Bool} {kind : ArchiveKind} {deterministic thin : Bool} {u : Unit}
    {out : List UInt8}
    (h : (writeArchiveToStream parse newMembers writeSymtab kind deterministic thin).run [] =
      .ok u out) :
    ∃ ret stringTable symNames kind' symtab,
      computeMemberData parse kind thin deterministic writeSymtab newMembers =
        .ok (ret, stringTable, symNames) ∧
      prepareArchive parse newMembers writeSymtab kind deterministic thin =
        .ok ((if stringTable.isEmpty then ret else computeStringTable stringTable :: ret),
          symNames, kind') ∧
      (symtab = [] ∨ writeSymtab = true ∧ kind'.Writable ∧ ∃ size pad body,
        computeSymbolTableSizeAndPad kind' (numSymbols ret) (offsetSizeOf kind') symNames =
          .ok (size, pad) ∧ body.length = size ∧ symtab = symbolTableHeader kind' 8 size ++ body) ∧
      out = archiveMagic thin ++ symtab ++
        (if stringTable.isEmpty then [] else (computeStringTable stringTable).record) ++
        ret.flatMap MemberData.record := by
  obtain ⟨data, symNames, kind', hp, symtab, hsymtab, hout⟩ := writeArchiveToStream_run_ok h
  obtain ⟨-, ret, st, hc, rfl, -⟩ := prepareArchive_ok hp
  refine ⟨ret, st, symNames, kind', symtab, hc, hp, ?_, ?_⟩
  · cases writeSymtab
    · exact .inl hsymtab
    · simp only [if_true, List.nil_append] at hsymtab
      rcases writeSymbolTable_run_ok hsymtab with ⟨-, hw⟩ | ⟨-, hk', -, size, pad, hsize, -, hw⟩
      · exact .inl (by simpa using hw)
      · simp only [length_archiveMagic, List.append_assoc, List.append_cancel_left_eq] at hw
        exact .inr ⟨rfl, hk', size, pad, _, numSymbols_withStringTable st ret ▸ hsize,
          length_symbolTableBody hk' hsize _, by rw [hw, List.append_assoc]⟩
  · rw [hout]
    split <;> simp

theorem symtab_end_mod_of_fits {kind' : ArchiveKind} {writeSymtab : Bool} {numSyms : Nat}
    {symNames symtab : List UInt8}
    (hsym : symtab = [] ∨ writeSymtab = true ∧ kind'.Writable ∧ ∃ size pad body,
      computeSymbolTableSizeAndPad kind' numSyms (offsetSizeOf kind') symNames =
        .ok (size, pad) ∧ body.length = size ∧ symtab = symbolTableHeader kind' 8 size ++ body)
    (hfit : writeSymtab = true → ∀ size pad,
      computeSymbolTableSizeAndPad kind' numSyms (offsetSizeOf kind') symNames = .ok (size, pad) →
      symbolTableSizeField kind' size < 10 ^ 10) :
    (8 + symtab.length) % (if kind'.bsd then 8 else 2) = 0 := by
  rcases hsym with rfl | ⟨hw, hk', size, pad, body, hsize, hbody, rfl⟩
  · split <;> rfl
  · have := symbolTable_end_mod hk' hsize (hfit hw size pad hsize)
    rwa [List.length_append, hbody, ← Nat.add_assoc]

theorem stringTable_length_lt {st : List UInt8}
    (h : st.length + offsetToAlignment st.length 2 < 10 ^ 10) : st.length < 10 ^ 10 - 1 := by
  unfold offsetToAlignment at h
  omega

theorem length_le_flatMap_record {ds : List MemberData} (h : ∀ d ∈ ds, 1 ≤ d.header.length) :
    ds.length ≤ (ds.flatMap MemberData.record).length := by
  induction ds with
  | nil => simp
  | cons d ds ih =>
    have := h d (List.mem_cons_self ..)
    have := ih fun d' hd' => h d' (List.mem_cons_of_mem _ hd')
    simp only [List.flatMap_cons, List.length_append, MemberData.record, List.length_cons]
    omega

/-! ## Payloads in the BSD family -/

theorem bsd_payloads_aligned {parse : ObjectParser} {newMembers : List NewArchiveMember}
    {writeSymtab : Bool} {kind : ArchiveKind} {deterministic thin : Bool} {u : Unit}
    {out : List UInt8} (hb : kind.bsd = true)
    (h : (writeArchiveToStream parse newMembers writeSymtab kind deterministic thin).run [] =
      .ok u out)
    (htime : TimestampsFit (deterministic && isDarwin kind) newMembers)
    (hperms : ∀ m ∈ newMembers, m.perms.toNat < 8 ^ 8)
    (hsizes : bsdSizesFit kind thin 0 newMembers = true)
    (hsymtab : writeSymtab = true → ∀ data symNames kind' size pad,
      prepareArchive parse newMembers writeSymtab kind deterministic thin =
        .ok (data, symNames, kind') →
      computeSymbolTableSizeAndPad kind' (numSymbols data) (offsetSizeOf kind') symNames =
        .ok (size, pad) → symbolTableSizeField kind' size < 10 ^ 10)
    (hfamily : ∀ data symNames kind',
      prepareArchive parse newMembers writeSymtab kind deterministic thin =
        .ok (data, symNames, kind') → kind'.bsd = true) :
    ∃ ret stringTable symNames symtab,
      computeMemberData parse kind thin deterministic writeSymtab newMembers =
        .ok (ret, stringTable, symNames) ∧
      (symtab = [] ∨ ∃ kind' size pad body,
        computeSymbolTableSizeAndPad kind' (numSymbols ret) (offsetSizeOf kind') symNames =
          .ok (size, pad) ∧ body.length = size ∧ symtab = symbolTableHeader kind' 8 size ++ body) ∧
      out = archiveMagic thin ++ symtab ++ ret.flatMap MemberData.record ∧
      ret.map MemberData.data = newMembers.map NewArchiveMember.buf ∧
      ∀ p ∈ ret.zip (recordOffsets (8 + symtab.length) ret), (p.2 + p.1.header.length) % 8 = 0 := by
  have hk := writable_of_bsd hb
  obtain ⟨ret, st, symNames, kind', symtab, hc, hp, hsym, hout⟩ := writeArchiveToStream_records h
  have hsym8 := symtab_end_mod_of_fits hsym fun hw size pad hsize =>
    hsymtab hw _ _ _ size pad hp (by rwa [numSymbols_withStringTable])
  rw [hfamily _ _ _ hp, if_pos rfl] at hsym8
  obtain ⟨hthin, -⟩ := prepareArchive_ok hp
  have hthin' : thin = false := by
    cases thin
    · rfl
    · have := hthin rfl
      rw [isBsdLike_of_writable hk, hb] at this
      cases this
  subst hthin'
  obtain ⟨s, hs, rfl, -⟩ := computeMemberData_ok hc
  have hst : s.stringTable = [] := by rw [computeMembers_stringTable_bsd hk hb hs]; rfl
  simp only [hst, List.isEmpty_nil, if_true, List.append_nil] at hout
  obtain ⟨-, halign⟩ := computeMembers_layout hk hs
    (loopFits_init htime hperms (by simp [hb]) fun _ => hsizes) (by rw [hst]; norm_num) rfl
    (show (8 + symtab.length) % 8 = (initAcc _).pos % 8 from hsym8)
  refine ⟨ret, s.stringTable, symNames, symtab, hc, ?_, hout, ?_, halign hb⟩
  · rcases hsym with rfl | ⟨-, -, size, pad, body, hsize, hbody, rfl⟩
    · exact .inl rfl
    · exact .inr ⟨kind', size, pad, body, hsize, hbody, rfl⟩
  · rw [computeMembers_data hs]
    simp

def twoObjects : List NewArchiveMember :=
  [⟨[1, 2, 3], "a_long_member_name.o", 0, 0, 0, 0⟩, ⟨[4], "b.o", 0, 0, 0, 0⟩]

theorem two_darwin_members_aligned :
    ∃ out, (writeArchiveToStream (fun _ => none) twoObjects false Darwin true false).run [] =
        .ok () out ∧
      ∃ ret stringTable symNames symtab,
        computeMemberData (fun _ => none) Darwin false true false twoObjects =
          .ok (ret, stringTable, symNames) ∧
        (symtab = [] ∨ ∃ kind' size pad body,
          computeSymbolTableSizeAndPad kind' (numSymbols ret) (offsetSizeOf kind') symNames =
            .ok (size, pad) ∧ body.length = size ∧ symtab = symbolTableHeader kind' 8 size ++ body) ∧
        out = archiveMagic false ++ symtab ++ ret.flatMap MemberData.record ∧
        ret.map MemberData.data = twoObjects.map NewArchiveMember.buf ∧
        ∀ p ∈ ret.zip (recordOffsets (8 + symtab.length) ret), (p.2 + p.1.header.length) % 8 = 0 := by
  obtain ⟨out, hrun⟩ : ∃ out, (writeArchiveToStream (fun _ => none) twoObjects false Darwin
      true false).run [] = .ok () out := ⟨_, rfl⟩
  refine ⟨out, hrun, bsd_payloads_aligned (show Darwin.bsd = true from rfl) hrun (by decide)
    (by decide) (by decide) nofun fun data symNames kind' hp => ?_⟩
  obtain ⟨-, -, -, -, -, hk'⟩ := prepareArchive_ok hp
  simp only [Bool.false_eq_true, if_false] at hk'
  rw [hk']
  rfl

def lateMember : NewArchiveMember := ⟨[1, 2], "a.o", 1000000000000, 0, 0, 0⟩

/-- Its BSD header is one byte longer than the name padding was computed for, so the payload
starts at offset 73. -/
theorem late_bsd_payload_misaligned :
    (writeArchiveToStream (fun _ => none) [lateMember] false Bsd true false).run [] =
      .ok () (archiveMagic false ++ printBsdMemberHeader 0 "a.o" (10 ^ 12) 0 0 0 2 ++ [1, 2]) ∧
    (archiveMagic false ++ printBsdMemberHeader 0 "a.o" (10 ^ 12) 0 0 0 2).length = 73 :=
  ⟨rfl, rfl⟩

/-! ## Records of even length -/

end ArchiveWriter
