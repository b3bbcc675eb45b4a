import ArchiveWriter.Reader
import ArchiveWriter.Timestamps

/-!
# Reading back what the writer writes

Read by `readArchive`, an archive `write_archive_to_stream` writes gives back its members in
order: each member's name, its timestamp, its uid and gid modulo one million (the width of
their fields), its mode, and its payload, with the newlines that pad it to eight bytes on
Darwin and empty in a thin archive. In a deterministic Darwin archive the `k`-th member of a
name that occurs more than once has timestamp `k`; the timestamp of a name that occurs once
is left open (see `darwin_single_name_timestamp`). The symbol table and the string table are
skipped, in whichever family the sizing pass wrote the symbol table.

This holds when every header field fits its width, which the bounds on the timestamps and
modes and on the size fields of the BSD member headers, the string table and the symbol
table give, and when every name reads back: not empty, without a newline or a NUL, not a BSD
symbol table's name, and ASCII when a GNU header holds it inline.
-/

namespace ArchiveWriter

open ArchiveKind

/-! ## What the reader finds -/

/-- The members a reader finds for `ms`, the members named `seen` having come before them and
`names` naming every member. In a deterministic Darwin archive a name that occurs once has the
timestamp `once` gives it. -/
def readBack (kind : ArchiveKind) (deterministic thin : Bool) (names : List String)
    (once : String → Nat) : List String → List NewArchiveMember → List ReadMember
  | _, [] => []
  | seen, m :: ms =>
    let data := if thin then [] else m.buf
    ⟨utf8 m.memberName.data,
      if deterministic && isDarwin kind then
        (if 1 < names.count m.memberName then seen.count m.memberName + 1 else once m.memberName)
      else m.mtime.toNat,
      m.uid.toNat % 1000000, m.gid.toNat % 1000000, m.perms.toNat,
      data ++ List.replicate (if isDarwin kind then offsetToAlignment data.length 8 else 0) 10⟩ ::
      readBack kind deterministic thin names once (seen ++ [m.memberName]) ms

/-- A member name the reader gets back: not empty, without the newline that ends a long GNU
name or the NUL that pads a BSD one, and not the name of a BSD symbol table. -/
structure NameReadable (name : String) : Prop where
  nonempty : name.data ≠ []
  noNewline : '\n' ∉ name.data
  noNul : Char.ofNat 0 ∉ name.data
  notSymdef : name ≠ "__.SYMDEF"
  notSymdef64 : name ≠ "__.SYMDEF_64"

instance (name : String) : Decidable (NameReadable name) :=
  decidable_of_iff (name.data ≠ [] ∧ '\n' ∉ name.data ∧ Char.ofNat 0 ∉ name.data ∧
      name ≠ "__.SYMDEF" ∧ name ≠ "__.SYMDEF_64")
    ⟨fun ⟨a, b, c, d, e⟩ => ⟨a, b, c, d, e⟩, fun ⟨a, b, c, d, e⟩ => ⟨a, b, c, d, e⟩⟩

theorem NameReadable.bytes {name : String} (h : NameReadable name) :
    utf8 name.data ≠ [] ∧ 10 ∉ utf8 name.data ∧ 0 ∉ utf8 name.data ∧
      utf8 name.data ∉ bsdSymbolTableNames := by
  refine ⟨fun he => h.nonempty (List.eq_nil_of_length_eq_zero ?_),
    not_mem_utf8 h.noNewline (by decide), not_mem_utf8 h.noNul (by decide), fun hmem => ?_⟩
  · have := length_le_length_utf8 name.data
    rw [he, List.length_nil] at this
    omega
  · simp only [bsdSymbolTableNames, List.mem_cons, List.mem_singleton, List.not_mem_nil,
      or_false] at hmem
    rcases hmem with he | he
    · exact h.notSymdef (String.ext (utf8_inj_of_ascii (by unfold Ascii; decide) he))
    · exact h.notSymdef64 (String.ext (utf8_inj_of_ascii (by unfold Ascii; decide) he))

/-! ## One member -/

theorem recordOffset_le (recs : List String) (j : Nat) :
    recordOffset recs j ≤ (recs.flatMap stringTableEntry).length := by
  conv_rhs => rw [← List.take_append_drop j recs]
  rw [recordOffset, List.flatMap_append, List.length_append]
  omega

/-- The name field of a GNU member header, as the reader resolves it with a string table that
starts with the records `recs` the header's offset points into. -/
theorem gnuHeader_field {kind : ArchiveKind} (hk : kind = Gnu ∨ kind = Gnu64) {pos : Nat}
    {st st' : List UInt8} {mn mn' : String → Option Nat} {thin : Bool} {m : NewArchiveMember}
    {mtime size : Nat} {header : List UInt8}
    (h : printMemberHeader pos st mn kind thin m mtime size = .ok (header, st', mn'))
    (hlen : header.length = 60) (hm : mtime < 10 ^ 12) (hp : m.perms.toNat < 8 ^ 8)
    (hs : size < 10 ^ 10) (hinline : useStringTable thin m.memberName = false →
      Ascii m.memberName.data)
    (hname : NameReadable m.memberName) {recs : List String}
    (hnh : NameHeader thin recs m header) (hrecs : (recs.flatMap stringTableEntry).length < 10 ^ 15)
    (extra : List UInt8) :
    ∃ field, field.length = 16 ∧
      header = field ++ printRestOfMemberHeader mtime m.uid.toNat m.gid.toNat m.perms.toNat size ∧
      (nameField field = .short (utf8 m.memberName.data) ∨ ∃ offset,
        nameField field = .long offset ∧
        untilSlashNewline ((recs.flatMap stringTableEntry ++ extra).drop offset) =
          utf8 m.memberName.data) := by
  obtain ⟨hne, h10, -, -⟩ := hname.bytes
  have hP := length_printRestOfMemberHeader_of_lt hm hp hs m.uid.toNat m.gid.toNat
  obtain ⟨X, hX⟩ : ∃ X, header = X ++
      printRestOfMemberHeader mtime m.uid.toNat m.gid.toNat m.perms.toNat size := by
    rcases printMemberHeader_gnu hk h with ⟨-, h1, -⟩ | ⟨-, -, h1, -⟩ | ⟨-, -, _, -, h1, -⟩ |
      ⟨-, -, -, h1, -⟩ <;> exact ⟨_, h1⟩
  have hX16 : X.length = 16 := by
    rw [hX, List.length_append, hP] at hlen
    omega
  unfold NameHeader at hnh
  split at hnh
  · -- a long name: the offset of one of its records
    obtain ⟨j, rest, hj, hh⟩ := hnh
    have hF := length_longField (lt_of_le_of_lt (recordOffset_le recs j) hrecs)
    obtain ⟨rfl, -⟩ := List.append_inj (hX.symm.trans hh) (hX16.trans hF.symm)
    exact ⟨_, hF, hX, .inr ⟨_, nameField_long _, untilSlashNewline_drop_recordOffset hj h10 extra⟩⟩
  · -- a name written in the field
    rename_i hu
    rw [Bool.not_eq_true] at hu
    have hn : byteLen m.memberName < 16 ∧ '/' ∉ m.memberName.data := by
      simp only [useStringTable, Bool.or_eq_false_iff, decide_eq_false_iff_not] at hu
      exact ⟨by omega, by simpa using hu.2⟩
    rcases printMemberHeader_gnu hk h with ⟨-, h1, -⟩ | ⟨hu', -⟩ | ⟨hu', -⟩ | ⟨hu', -⟩
    · refine ⟨_, length_inlineField (hinline hu) hn.1, h1, .inl ?_⟩
      rw [utf8_inlineField (hinline hu) hn.1]
      exact nameField_short hne (not_mem_utf8 hn.2 (by decide)) _
    all_goals rw [hu] at hu'; cases hu'

/-- Read from an even offset while the loop's `pos` is even, a BSD record's tail pad is the
parity of its size: the name padding takes both to an 8-byte boundary. -/
theorem bsd_tail_parity {pos spos len n : Nat} (hpos : pos % 2 = 0) (hspos : spos % 2 = 0) :
    (pos + 60 + len + offsetToAlignment (spos + 60 + len) 8 + n) % 2 = offsetToAlignment n 2 := by
  have := add_offsetToAlignment_mod (by norm_num : 0 < 8) (spos + 60 + len)
  unfold offsetToAlignment at this ⊢
  omega

section Member

variable {parse : ObjectParser} {kind : ArchiveKind} {thin needSymbols u : Bool} {s s' : Acc}
  {m : NewArchiveMember} {ms : List NewArchiveMember} {d : MemberData}

/-- The record one step of the member loop prints, read at an even offset while the loop's
`pos` is even: the member's name, the timestamp the step chose, the uid and gid modulo one
million, the mode, and the payload with Darwin's member padding. -/
theorem readRecord_computeMember (hk : kind.Writable)
    (h : computeMember parse kind thin needSymbols u s m = .ok (d, s'))
    (hf : LoopFits kind thin u s (m :: ms)) (hst : s.stringTable.length < 10 ^ 15)
    {pos : Nat} (hpos : pos % 2 = 0) (hspos : s.pos % 2 = 0)
    (hname : NameReadable m.memberName) {recs : List String} {strtab extra : List UInt8}
    (hgnu : kind.bsd = false → NameHeader thin recs m d.header ∧
      strtab = recs.flatMap stringTableEntry ++ extra ∧
      (recs.flatMap stringTableEntry).length < 10 ^ 15)
    (rest : List UInt8) :
    ∃ mtime, memberMtime u s.filenameCount m = .ok (mtime, s'.filenameCount) ∧
      readRecord thin strtab pos (d.record ++ rest) =
        some (.member ⟨utf8 m.memberName.data, mtime, m.uid.toNat % 1000000,
          m.gid.toNat % 1000000, m.perms.toNat, d.data ++
            List.replicate (if isDarwin kind then offsetToAlignment d.data.length 8 else 0) 10⟩,
          d.record.length) := by
  obtain ⟨mtime, hdata, hpad, hsize, hmt, hhdr, -, -⟩ := computeMember_ok h
  have hsizes : kind.bsd = true →
      bsdSizeField s.pos m.memberName (memberSize kind thin m) < 10 ^ 10 :=
    fun hb => (bsdSizesFit_cons.1 (hf.sizes hb)).1
  simp only [memberSize] at hsizes
  rw [← hdata] at hpad hhdr hsize hsizes
  obtain ⟨hlen, -⟩ := computeMember_fits hk h hf hst
  have hm := hf.members m (List.mem_cons_self ..)
  obtain ⟨hmt', -⟩ := memberMtime_lt hmt hf.counts hm.1
  obtain ⟨-, -, h0, hsym⟩ := hname.bytes
  have hreclen : d.record.length = d.header.length + d.data.length + d.padding.length := by
    simp only [MemberData.record, List.length_append]
  refine ⟨mtime, hmt, ?_⟩
  cases hb : kind.bsd
  · -- GNU: a sixty-byte header, the payload and a newline when it is odd
    have hgk := gnu_of_writable hk hb
    have hdw : isDarwin kind = false := by rcases hgk with rfl | rfl <;> rfl
    simp only [hb, Bool.false_eq_true, if_false] at hlen
    simp only [hdw, Bool.false_eq_true, if_false, Nat.add_zero, Nat.zero_add, List.replicate_zero,
      List.append_nil] at hpad hhdr hsize ⊢
    obtain ⟨hnh, rfl, hrecs⟩ := hgnu hb
    have hs : d.data.length < 10 ^ 10 := lt_of_le_of_lt hsize (by norm_num [maxMemberSize])
    obtain ⟨field, hF, hhead, hfield⟩ := gnuHeader_field hgk hhdr hlen hmt' hm.2 hs
      (hf.inline hb m (List.mem_cons_self ..)) hname hnh hrecs extra
    have hthin : thin = true → d.data = [] := fun ht => by rw [hdata, if_pos ht]
    have := readRecord_gnuMember hpos hF hfield hmt' hm.2 hs hthin m.uid.toNat m.gid.toNat rest
    have hrl : d.record.length = 60 + d.data.length + offsetToAlignment d.data.length 2 := by
      rw [hreclen, hlen, hpad, List.length_replicate]
    rw [hrl, MemberData.record, hhead, hpad]
    simpa only [List.append_assoc] using this
  · -- BSD: the name and its padding after the header, the payload with Darwin's padding
    rw [printMemberHeader_bsd hk hb] at hhdr
    simp only [Except.ok.injEq, Prod.mk.injEq] at hhdr
    generalize (if isDarwin kind = true then offsetToAlignment d.data.length 8 else 0) = mp
      at hpad hhdr hsizes ⊢
    rw [hpad, List.length_replicate] at hreclen
    have hdl : (d.data ++ List.replicate mp 10).length = d.data.length + mp := by simp
    have := @readRecord_bsd thin strtab pos s.pos m.memberName h0 mtime m.perms.toNat hmt' hm.2
      (d.data ++ List.replicate mp 10)
      (List.replicate (offsetToAlignment (d.data.length + mp) 2) 10)
      (by rw [hdl]; exact hsizes hb)
      (by rw [hdl, List.length_replicate]; exact bsd_tail_parity hpos hspos)
      m.uid.toNat m.gid.toNat rest
    rw [if_neg hsym, hdl, hhdr.1, List.length_replicate] at this
    rw [hreclen]
    simpa only [MemberData.record, hpad, List.replicate_add, List.append_assoc, Nat.add_assoc]
      using this

end Member

/-! ## The member loop -/

/-- The records the member loop prints, read from an even offset while the loop's `pos` is
even, give back the members the loop was given, a name that occurs once in `names` with
timestamp 1 in a deterministic Darwin archive. With unique timestamps each name's count
must stand for the members named `seen` before them; in the GNU family the string table
must start with the records the headers' offsets point into. -/
theorem readRecords_computeMembers {parse : ObjectParser} {kind : ArchiveKind}
    (hk : kind.Writable) {thin needSymbols deterministic : Bool} {recs names : List String}
    {strtab extra : List UInt8}
    (htable : kind.bsd = false → strtab = recs.flatMap stringTableEntry ++ extra ∧
      (recs.flatMap stringTableEntry).length < 10 ^ 15) :
    ∀ {s s' : Acc} {ms : List NewArchiveMember} {ds : List MemberData} {seen : List String}
      {fuel pos : Nat},
    computeMembers parse kind thin needSymbols (deterministic && isDarwin kind) s ms =
      .ok (ds, s') →
    LoopFits kind thin (deterministic && isDarwin kind) s ms → s'.stringTable.length < 10 ^ 15 →
    (∀ d ∈ ds, d.record.length % 2 = 0) → pos % 2 = 0 → s.pos % 2 = 0 →
    ((deterministic && isDarwin kind) = true →
      ∀ m ∈ ms, s.filenameCount m.memberName = some (seen.count m.memberName + 1)) →
    seen ++ ms.map (·.memberName) = names → (∀ m ∈ ms, NameReadable m.memberName) →
    (kind.bsd = false → ∀ (i : Nat) (m : NewArchiveMember) (d : MemberData), ms[i]? = some m →
      ds[i]? = some d → NameHeader thin recs m d.header) →
    ds.length ≤ fuel →
    readRecords thin fuel strtab pos (ds.flatMap MemberData.record) =
      some (readBack kind deterministic thin names (fun _ => 1) seen ms) := by
  intro s s' ms
  induction ms generalizing s with
  | nil =>
    intro ds seen fuel pos h
    cases h
    intros
    cases fuel <;> rfl
  | cons m ms ih =>
    intro ds seen fuel pos h hf hst heven hpos hspos hcount hseen hnames hnh hfuel
    have hst₀ := (computeMembers_stringTable_extends hk h).length_le
    obtain ⟨d, s₁, ds', h₁, h₂, rfl⟩ := computeMembers_cons_ok h
    obtain ⟨f, rfl⟩ : ∃ f, fuel = f + 1 := ⟨fuel - 1, by simp only [List.length_cons] at hfuel; omega⟩
    have hst₁ := (computeMembers_stringTable_extends hk h₂).length_le
    have hevend := heven d (List.mem_cons_self ..)
    obtain ⟨mtime, hmt, hread⟩ := readRecord_computeMember hk h₁ hf (by omega) hpos hspos
      (hnames m (List.mem_cons_self ..))
      (fun hb => ⟨hnh hb 0 m d List.getElem?_cons_zero List.getElem?_cons_zero, htable hb⟩)
      (ds'.flatMap MemberData.record)
    obtain ⟨-, hf₁⟩ := computeMember_fits hk h₁ hf (by omega)
    obtain ⟨hpos₁, -, -, h60⟩ := computeMember_record hk h₁
    obtain ⟨_, hdata, -⟩ := computeMember_ok h₁
    -- the timestamp the step chose, 1 for a name that occurs once, and the counts it leaves
    have hmtime : mtime = if deterministic && isDarwin kind then
        (if 1 < names.count m.memberName then seen.count m.memberName + 1 else 1)
        else m.mtime.toNat := by
      cases hu : (deterministic && isDarwin kind)
      · rw [hu] at hmt
        simp only [memberMtime, Bool.false_eq_true, if_false, Except.ok.injEq,
          Prod.mk.injEq] at hmt
        exact hmt.1.symm
      · rw [hu] at hmt
        have hle : seen.count m.memberName + 1 ≤ names.count m.memberName := by
          rw [← hseen, List.map_cons, List.count_append, List.count_cons_self]
          omega
        rw [(memberMtime_count hmt (hcount hu)).1, if_pos rfl]
        split <;> omega
    have hcount₁ : (deterministic && isDarwin kind) = true → ∀ m' ∈ ms,
        s₁.filenameCount m'.memberName = some ((seen ++ [m.memberName]).count m'.memberName + 1) :=
      fun hu => by rw [hu] at hmt; exact (memberMtime_count hmt (hcount hu)).2
    have hne : d.record ≠ [] := List.ne_nil_of_length_pos (by
      simp only [MemberData.record, List.length_append]; omega)
    rw [List.flatMap_cons, readRecords_member hne hread,
      ih h₂ hf₁ hst (fun d' hd' => heven d' (List.mem_cons_of_mem _ hd'))
        (by omega) (by omega) hcount₁
        (by rw [← hseen, List.map_cons, List.append_assoc, List.singleton_append])
        (fun m' hm' => hnames m' (List.mem_cons_of_mem _ hm'))
        (fun hb i m' d' hm' hd' => hnh hb (i + 1) m' d' (by rwa [List.getElem?_cons_succ])
          (by rwa [List.getElem?_cons_succ])) (by simp only [List.length_cons] at hfuel; omega),
      readBack, hmtime, hdata]
    rfl

/-! ## The whole archive -/

theorem archiveMagic_thin_ne : archiveMagic true ≠ archiveMagic false := by decide

theorem length_symbolTableHeader_ge (kind : ArchiveKind) (pos size : Nat) :
    60 ≤ (symbolTableHeader kind pos size).length := by
  unfold symbolTableHeader
  split
  · exact le_trans (by omega) (length_printBsdMemberHeader_ge ..)
  · exact length_printGnuSmallMemberHeader_ge ..

theorem archive_round_trip {parse : ObjectParser} {newMembers : List NewArchiveMember}
    {writeSymtab : Bool} {kind : ArchiveKind} {deterministic thin : Bool} {u : Unit}
    {out : List UInt8} (hk : kind.Writable)
    (h : (writeArchiveToStream parse newMembers writeSymtab kind deterministic thin).run [] =
      .ok u out)
    (hnames : ∀ m ∈ newMembers, NameReadable m.memberName)
    (htime : TimestampsFit (deterministic && isDarwin kind) newMembers)
    (hperms : ∀ m ∈ newMembers, m.perms.toNat < 8 ^ 8)
    (hinline : kind.bsd = false → ∀ m ∈ newMembers, useStringTable thin m.memberName = false →
      Ascii m.memberName.data)
    (hsizes : kind.bsd = true → bsdSizesFit kind thin 0 newMembers = true)
    (hstrtab : ∀ ret stringTable symNames,
      computeMemberData parse kind thin deterministic writeSymtab newMembers =
        .ok (ret, stringTable, symNames) →
      stringTable.length + offsetToAlignment stringTable.length 2 < 10 ^ 10)
    (hsymtab : writeSymtab = true → ∀ data symNames kind' size pad,
      prepareArchive parse newMembers writeSymtab kind deterministic thin =
        .ok (data, symNames, kind') →
      computeSymbolTableSizeAndPad kind' (numSymbols data) (offsetSizeOf kind') symNames =
        .ok (size, pad) → symbolTableSizeField kind' size < 10 ^ 10) :
    ∃ once : String → Nat, readArchive out =
      some (readBack kind deterministic thin (newMembers.map (·.memberName)) once [] newMembers) := by
  obtain ⟨ret, st, symNames, kind', symtab, hc, hp, hsym, hout⟩ := writeArchiveToStream_records h
  have hstlen := stringTable_length_lt (hstrtab _ _ _ hc)
  obtain ⟨s, hs, rfl, -⟩ := computeMemberData_ok hc
  generalize hstr : (if s.stringTable.isEmpty then [] else
    (computeStringTable s.stringTable).record) = strtab at hout
  have hlen' := congrArg List.length hout
  simp only [List.length_append, length_archiveMagic] at hlen'
  have hrecs := computeMembers_records hk hs
  have hN := length_le_flatMap_record fun d hd => le_trans (by norm_num) (hrecs d hd).2.2
  have hrl : ret.length = newMembers.length := computeMembers_length hs
  have hfits := loopFits_init htime hperms hinline hsizes
  obtain ⟨heven, -⟩ := computeMembers_layout hk hs hfits (by omega) rfl rfl
  -- the string table holds the long names' records, at the offsets the headers give
  have hgnu : kind.bsd = false →
      s.stringTable = (tableNames thin (newMembers.map (·.memberName))).flatMap
        stringTableEntry ∧
      ∀ (i : Nat) (m : NewArchiveMember) (d : MemberData), newMembers[i]? = some m →
        ret[i]? = some d →
        NameHeader thin (tableNames thin (newMembers.map (·.memberName))) m d.header :=
    fun hb => by
      obtain ⟨hinv, hnh⟩ := computeMembers_table (gnu_of_writable hk hb) (tableInv_init thin) hs
      exact ⟨hinv.table, hnh⟩
  have hcount : (deterministic && isDarwin kind) = true → ∀ m ∈ newMembers,
      (initAcc (if deterministic && isDarwin kind then lowerCounts (countNames newMembers)
        else fun _ => none)).filenameCount m.memberName =
        some (([] : List String).count m.memberName + 1) := fun hu m hm => by
    simpa [initAcc, hu] using lowerCounts_countNames hm
  -- the members' records, after whatever string table the reader holds
  have hmembers : ∀ strtab' extra fuel pos, (kind.bsd = false →
      strtab' = s.stringTable ++ extra) → ret.length ≤ fuel → pos % 2 = 0 →
      readRecords thin fuel strtab' pos (ret.flatMap MemberData.record) =
        some (readBack kind deterministic thin (newMembers.map (·.memberName)) (fun _ => 1) []
          newMembers) :=
    fun strtab' extra fuel pos hst hfuel hpos => by
      have htable : kind.bsd = false → strtab' = (tableNames thin (newMembers.map
          (·.memberName))).flatMap stringTableEntry ++ extra ∧ ((tableNames thin
          (newMembers.map (·.memberName))).flatMap stringTableEntry).length < 10 ^ 15 :=
        fun hb => ⟨by rw [hst hb, (hgnu hb).1], by rw [← (hgnu hb).1]; omega⟩
      exact readRecords_computeMembers hk htable hs hfits (by omega) heven hpos rfl hcount
        (List.nil_append _) hnames (fun hb => (hgnu hb).2) hfuel
  -- the `//` member, if any, then the members
  have hafter : ∀ fuel pos, ret.length + 1 ≤ fuel → pos % 2 = 0 →
      readRecords thin fuel [] pos (strtab ++ ret.flatMap MemberData.record) =
        some (readBack kind deterministic thin (newMembers.map (·.memberName)) (fun _ => 1) []
          newMembers) := by
    intro fuel pos hfuel hpos
    rw [← hstr]
    split
    · rename_i he
      exact hmembers [] [] fuel pos (fun _ => by rw [List.isEmpty_iff.1 he]; rfl) (by omega) hpos
    · obtain ⟨f, rfl⟩ : ∃ f, fuel = f + 1 := ⟨fuel - 1, by omega⟩
      have hne : (computeStringTable s.stringTable).record ≠ [] := List.ne_nil_of_length_pos
        (by rw [length_computeStringTable_record hstlen]; omega)
      have hodd := add_offsetToAlignment_mod (by norm_num : 0 < 2) s.stringTable.length
      rw [readRecords_stringTable hne (readRecord_stringTable hpos hstlen _)]
      exact hmembers _ (computeStringTable s.stringTable).padding f _ (fun _ => rfl) (by omega)
        (by rw [length_computeStringTable_record hstlen]; omega)
  -- the symbol table, if any
  have hread : readRecords thin out.length [] 8 (symtab ++ strtab ++
      ret.flatMap MemberData.record) = some (readBack kind deterministic thin
        (newMembers.map (·.memberName)) (fun _ => 1) [] newMembers) := by
    rcases hsym with rfl | ⟨hw, hk', size, pad, body, hsize, hbody, rfl⟩
    · exact hafter _ 8 (by omega) rfl
    · have hfit := hsymtab hw _ _ _ size pad hp (by rwa [numSymbols_withStringTable])
      have hlt := symbolTableHeader_fits hfit
      have hend := symbolTable_end_mod hk' hsize hfit
      have hr : readRecord thin [] 8 ((symbolTableHeader kind' 8 size ++ body) ++
          (strtab ++ ret.flatMap MemberData.record)) =
          some (.symbolTable, (symbolTableHeader kind' 8 size ++ body).length) := by
        rw [List.append_assoc, List.length_append, hbody]
        exact readRecord_symbolTable hk' hsize hlt hbody thin [] _
      have hne : symbolTableHeader kind' 8 size ++ body ≠ [] := List.ne_nil_of_length_pos
        (by have := length_symbolTableHeader_ge kind' 8 size; simp only [List.length_append]; omega)
      obtain ⟨f, hf⟩ : ∃ f, out.length = f + 1 := ⟨out.length - 1, by omega⟩
      rw [hf, List.append_assoc (symbolTableHeader kind' 8 size ++ body),
        readRecords_symbolTable hne hr]
      refine hafter f _ (by omega) ?_
      simp only [List.length_append, hbody]
      split at hend <;> omega
  -- the magic
  have htake : out.take 8 = archiveMagic thin := by
    rw [hout, List.append_assoc, List.append_assoc, List.take_left' (length_archiveMagic thin)]
  have hdrop : out.drop 8 = symtab ++ strtab ++ ret.flatMap MemberData.record := by
    rw [hout, List.append_assoc, List.append_assoc, List.drop_left' (length_archiveMagic thin),
      List.append_assoc]
  refine ⟨fun _ => 1, ?_⟩
  unfold readArchive
  rw [htake, hdrop]
  cases thin
  · exact (if_pos rfl).trans hread
  · exact (if_neg archiveMagic_thin_ne).trans ((if_pos rfl).trans hread)

set_option maxRecDepth 2000 in
theorem two_objects_read_back :
    ∃ out, (writeArchiveToStream (fun _ => none) twoObjects false Gnu true false).run [] =
        .ok () out ∧ ∃ once, readArchive out =
          some (readBack Gnu true false (twoObjects.map (·.memberName)) once [] twoObjects) := by
  obtain ⟨out, hrun⟩ : ∃ out, (writeArchiveToStream (fun _ => none) twoObjects false Gnu
      true false).run [] = .ok () out := ⟨_, rfl⟩
  obtain ⟨ret, sn, hc⟩ : ∃ ret symNames, computeMemberData (fun _ => none) Gnu false true false
      twoObjects = .ok (ret, stringTableEntry "a_long_member_name.o", symNames) := ⟨_, _, rfl⟩
  refine ⟨out, hrun, archive_round_trip (by decide) hrun (by decide) (by decide) (by decide)
    (fun _ m hm hu => ?_) nofun (fun _ _ _ h => ?_) nofun⟩
  · simp only [twoObjects, List.mem_cons, List.mem_singleton, List.not_mem_nil, or_false] at hm
    rcases hm with rfl | rfl
    · exact absurd hu (by decide)
    · unfold Ascii; decide
  · cases Except.ok.inj (h.symm.trans hc)
    decide

/-! ## What reading back does not give back

The uid and gid fields hold six digits, so the writer prints them modulo one million. On
Darwin a payload is padded with newlines to eight bytes, and the size field counts the
padding; in deterministic mode the timestamps are renumbered per name. A thin archive holds
no payloads. An inline GNU name is padded to sixteen characters, not bytes, so a name with a
character of two bytes pushes the header to sixty-one bytes. And a size that takes eleven
digits, which the largest member the writer accepts reaches once the BSD name is counted,
pushes the header past its sixty bytes too. -/

/-- A member of uid one million. -/
def millionUid : NewArchiveMember := ⟨[1, 2], "a.o", 0, 1000000, 0, 0⟩

/-- Two members of one name, both of timestamp 5. -/
def twoLate : List NewArchiveMember := [⟨[1, 2], "a.o", 5, 0, 0, 0⟩, ⟨[3], "a.o", 5, 0, 0, 0⟩]

/-- A member with a payload, for a thin archive. -/
def plainMember : NewArchiveMember := ⟨[1, 2], "a.o", 0, 0, 0, 0⟩

/-- A member whose short name has a character of two bytes. -/
def accentedName : NewArchiveMember := ⟨[1, 2], "é.o", 0, 0, 0, 0⟩

/-- A BSD member of the largest size the writer accepts: its header's size field counts the
name too and takes eleven digits. -/
theorem writeArchiveToStream_max_size_bsd {big : List UInt8} (hlen : big.length = maxMemberSize) :
    (writeArchiveToStream (fun _ => none) [⟨big, "a.o", 0, 0, 0, 0⟩] false Bsd true false).run [] =
      .ok () (archiveMagic false ++
        (printBsdMemberHeader 0 "a.o" 0 0 0 0 maxMemberSize ++ big ++ [10])) := by
  have h₁ : computeMember (fun _ => none) Bsd false false false (initAcc fun _ => none)
      ⟨big, "a.o", 0, 0, 0, 0⟩ =
      .ok (⟨[], printBsdMemberHeader 0 "a.o" 0 0 0 0 maxMemberSize, big, [10]⟩,
        { pos := (printBsdMemberHeader 0 "a.o" 0 0 0 0 maxMemberSize).length + maxMemberSize + 1,
          stringTable := [], symNames := [], memberNames := fun _ => none,
          filenameCount := fun _ => none, hasObject := false }) := by
    have hd : isDarwin Bsd = false := rfl
    have hp : offsetToAlignment (maxMemberSize + 0) 2 = 1 := rfl
    have hpad : paddingData (0 + 1) = .ok [10] := rfl
    have hmax : ¬ (maxMemberSize + 0 > maxMemberSize) := by omega
    simp only [computeMember, hd, Bool.false_eq_true, if_false, hlen, hp, hpad, ok_bind,
      memberMtime, printMemberHeader_bsd (by decide : Bsd.Writable) rfl, hmax, pure_bind]
    rfl
  have hc : computeMemberData (fun _ => none) Bsd false true false [⟨big, "a.o", 0, 0, 0, 0⟩] =
      .ok ([⟨[], printBsdMemberHeader 0 "a.o" 0 0 0 0 maxMemberSize, big, [10]⟩], [], []) := by
    show (do
      let (ret, s) ← computeMembers (fun _ => none) Bsd false false false (initAcc fun _ => none)
        [⟨big, "a.o", 0, 0, 0, 0⟩]
      _) = _
    rw [computeMembers, h₁]
    rfl
  have hprep : prepareArchive (fun _ => none) [⟨big, "a.o", 0, 0, 0, 0⟩] false Bsd true false =
      .ok ([⟨[], printBsdMemberHeader 0 "a.o" 0 0 0 0 maxMemberSize, big, [10]⟩], [], Bsd) := by
    rw [prepareArchive_eq (by simp)]
    simp only [hc, ok_bind, List.isEmpty_nil, if_true]
    rfl
  rw [writeArchiveToStream_run_of_ok hprep, if_neg Bool.false_ne_true]
  simp [MemberData.record]

/-- The reader stops at that header: after ten digits of size it finds the eleventh where
the backquote should be. -/
theorem readArchive_max_size_bsd (big : List UInt8) :
    readArchive (archiveMagic false ++
      (printBsdMemberHeader 0 "a.o" 0 0 0 0 maxMemberSize ++ big ++ [10])) = none := by
  have hr : readRecord false [] 8
      (printBsdMemberHeader 0 "a.o" 0 0 0 0 maxMemberSize ++ (big ++ [10])) = none := rfl
  obtain ⟨b, bs, hb⟩ : ∃ b bs, printBsdMemberHeader 0 "a.o" 0 0 0 0 maxMemberSize ++
      (big ++ [10]) = b :: bs := ⟨_, _, rfl⟩
  unfold readArchive
  rw [List.take_left' (length_archiveMagic false), if_pos rfl,
    List.drop_left' (length_archiveMagic false), List.append_assoc, hb, List.length_append,
    List.length_cons, Nat.add_succ, readRecords, ← hb, hr]
  rfl

set_option maxRecDepth 4000 in
theorem archive_read_back_differs :
    (∃ out, (writeArchiveToStream (fun _ => none) [millionUid] false Gnu true false).run [] =
        .ok () out ∧ readArchive out = some [⟨utf8 "a.o".data, 0, 0, 0, 0, [1, 2]⟩]) ∧
    (∃ out, (writeArchiveToStream (fun _ => none) twoLate false Darwin true false).run [] =
        .ok () out ∧ readArchive out =
          some [⟨utf8 "a.o".data, 1, 0, 0, 0, [1, 2, 10, 10, 10, 10, 10, 10]⟩,
            ⟨utf8 "a.o".data, 2, 0, 0, 0, [3, 10, 10, 10, 10, 10, 10, 10]⟩]) ∧
    (∃ out, (writeArchiveToStream (fun _ => none) [plainMember] false Gnu true true).run [] =
        .ok () out ∧ readArchive out = some [⟨utf8 "a.o".data, 0, 0, 0, 0, []⟩]) ∧
    (∃ out, (writeArchiveToStream (fun _ => none) [accentedName] false Gnu true false).run [] =
        .ok () out ∧ readArchive out = none) ∧
    (∃ out, (writeArchiveToStream (fun _ => none)
        [⟨List.replicate maxMemberSize 0, "a.o", 0, 0, 0, 0⟩] false Bsd true false).run [] =
        .ok () out ∧ readArchive out = none) :=
  ⟨⟨_, rfl, rfl⟩, ⟨_, rfl, rfl⟩, ⟨_, rfl, rfl⟩, ⟨_, rfl, rfl⟩,
    ⟨_, writeArchiveToStream_max_size_bsd (List.length_replicate _ _),
      readArchive_max_size_bsd _⟩⟩

end ArchiveWriter
