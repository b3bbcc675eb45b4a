import ArchiveWriter.Writer

/-!
# The two-phase sizing

Before it writes anything, `write_archive_to_stream` lays out the archive once with 32-bit
symbol-table entries and a symbol-table header written at offset 0 of a scratch cursor.
The offset it finds for the last element of `data` is exact: the BSD header's name
padding depends on its position only modulo 8, and the magic is eight bytes long. Every
value `print_n_bits` is later given is at most that offset, so a 32-bit table never
overflows; and since every other step of `write_archive_to_stream` that can fail runs
before the magic, a call either fails having written nothing or succeeds.
-/

namespace ArchiveWriter

open ArchiveKind

/-! ## The sizing pass -/

@[simp] theorem numSymbols_nil : numSymbols [] = 0 := rfl
@[simp] theorem numSymbols_cons (d : MemberData) (ds : List MemberData) :
    numSymbols (d :: ds) = d.symbols.length + numSymbols ds := rfl

@[simp] theorem length_record (d : MemberData) :
    d.record.length = d.header.length + d.data.length + d.padding.length := by
  simp [MemberData.record, Nat.add_assoc]

theorem sizingLoop_eq (maxOffset lastOffset numSyms : Nat) (ds : List MemberData) :
    sizingLoop maxOffset lastOffset numSyms ds =
      (if ds = [] then lastOffset else maxOffset + (ds.dropLast.flatMap MemberData.record).length,
        numSyms + numSymbols ds) := by
  induction ds generalizing maxOffset lastOffset numSyms with
  | nil => simp [sizingLoop]
  | cons d ds ih =>
    rw [sizingLoop, ih]
    cases ds with
    | nil => simp
    | cons d' ds => simp [List.dropLast_cons₂]; omega

@[simp] theorem length_archiveMagic (thin : Bool) : (archiveMagic thin).length = 8 := by
  cases thin <;> rfl

theorem printBsdMemberHeader_add_eight (pos : Nat) (name : String) (mtime uid gid perms size : Nat) :
    printBsdMemberHeader (pos + 8) name mtime uid gid perms size =
      printBsdMemberHeader pos name mtime uid gid perms size := by
  have : pos + 8 + 60 + byteLen name = pos + 60 + byteLen name + 8 := by omega
  simp only [printBsdMemberHeader, this, offsetToAlignment_add_self]

/-- The header the sizing pass measures at offset 0 is the one written after the magic. -/
theorem symbolTableHeader_magic (kind : ArchiveKind) (size : Nat) :
    symbolTableHeader kind 8 size = symbolTableHeader kind 0 size := by
  simp only [symbolTableHeader, printBsdMemberHeader_add_eight 0]

theorem symbolTableHeaderSize_ok {kind : ArchiveKind} {deterministic : Bool} {size n : Nat}
    (h : symbolTableHeaderSize kind deterministic size = .ok n) :
    kind.Writable ∧ deterministic = true ∧ n = (symbolTableHeader kind 8 size).length := by
  unfold symbolTableHeaderSize at h
  split at h
  · rename_i tmp htmp
    obtain ⟨hk, rfl, rfl⟩ := writeSymbolTableHeader_run_ok htmp
    cases h
    simp [hk, symbolTableHeader_magic]
  · cases h

theorem lastOffset_ok {kind : ArchiveKind} {deterministic : Bool} {data : List MemberData}
    {symNames : List UInt8} {o : Nat} (h : lastOffset kind deterministic data symNames = .ok o) :
    kind.Writable ∧ deterministic = true ∧ ∃ size pad,
      computeSymbolTableSizeAndPad kind (numSymbols data) 4 symNames = .ok (size, pad) ∧
      o = 8 + (symbolTableHeader kind 8 size).length + size +
        (data.dropLast.flatMap MemberData.record).length := by
  simp only [lastOffset, sizingLoop_eq, except_bind_eq_ok, pure, Except.pure,
    Except.ok.injEq] at h
  obtain ⟨⟨size, pad⟩, hsize, n, hn, rfl⟩ := h
  obtain ⟨hk, rfl, rfl⟩ := symbolTableHeaderSize_ok hn
  refine ⟨hk, rfl, size, pad, by simpa using hsize, ?_⟩
  split <;> simp_all <;> omega


theorem lastOffset_eq {kind : ArchiveKind} (hk : kind.Writable) (data : List MemberData)
    {symNames : List UInt8} {size pad : Nat}
    (hsize : computeSymbolTableSizeAndPad kind (numSymbols data) 4 symNames = .ok (size, pad)) :
    lastOffset kind true data symNames = .ok (8 + (symbolTableHeader kind 8 size).length + size +
      (data.dropLast.flatMap MemberData.record).length) := by
  simp only [lastOffset, sizingLoop_eq, hsize, symbolTableHeaderSize, writeSymbolTableHeader_run hk,
    symbolTableHeader_magic, except_bind_eq_ok]
  split <;> simp_all [pure, Except.pure] <;> omega

/-! ## What is known once the member data are computed -/

theorem prepareArchive_eq {parse : ObjectParser} {newMembers : List NewArchiveMember}
    {writeSymtab : Bool} {kind : ArchiveKind} {deterministic thin : Bool}
    (hthin : thin = true → isBsdLike kind = .ok false) :
    prepareArchive parse newMembers writeSymtab kind deterministic thin = (do
      let (data, stringTable, symNames) ←
        computeMemberData parse kind thin deterministic writeSymtab newMembers
      let data := if stringTable.isEmpty then data else computeStringTable stringTable :: data
      let kind ← if writeSymtab then symtabKind kind deterministic data symNames else pure kind
      return (data, symNames, kind)) := by
  cases thin
  · simp [prepareArchive]
  · simp [prepareArchive, hthin rfl, bind, Except.bind, pure, Except.pure]


theorem prepareArchive_ok {parse : ObjectParser} {newMembers : List NewArchiveMember}
    {writeSymtab : Bool} {kind kind' : ArchiveKind} {deterministic thin : Bool}
    {data : List MemberData} {symNames : List UInt8}
    (h : prepareArchive parse newMembers writeSymtab kind deterministic thin =
      .ok (data, symNames, kind')) :
    (thin = true → isBsdLike kind = .ok false) ∧
    ∃ ret stringTable,
      computeMemberData parse kind thin deterministic writeSymtab newMembers =
        .ok (ret, stringTable, symNames) ∧
      data = (if stringTable.isEmpty then ret else computeStringTable stringTable :: ret) ∧
      if writeSymtab then ∃ o, lastOffset kind deterministic data symNames = .ok o ∧
        kind' = if o ≥ sym64Threshold then (if kind = Darwin then Darwin64 else Gnu64) else kind
      else kind' = kind := by
  have hthin : thin = true → isBsdLike kind = .ok false := by
    rintro rfl
    cases hb : isBsdLike kind with
    | error e => simp [prepareArchive, hb] at h
    | ok b =>
      cases b
      · rfl
      · simp [prepareArchive, hb] at h
  refine ⟨hthin, ?_⟩
  simp only [prepareArchive_eq hthin, except_bind_eq_ok] at h
  obtain ⟨⟨ret, stringTable, sn⟩, hc, h⟩ := h
  refine ⟨ret, stringTable, ?_⟩
  cases writeSymtab
  · simp only [Bool.false_eq_true, if_false, pure, Except.pure, except_bind_eq_ok,
      Except.ok.injEq, Prod.mk.injEq] at h
    obtain ⟨_, rfl, rfl, rfl, rfl⟩ := h
    exact ⟨hc, rfl, rfl⟩
  · simp only [if_true, symtabKind, except_bind_eq_ok, pure, Except.pure, Except.ok.injEq,
      Prod.mk.injEq] at h
    obtain ⟨_, ⟨o, ho, rfl⟩, rfl, rfl, rfl⟩ := h
    exact ⟨hc, rfl, o, ho, rfl⟩


/-- Every name offset a member carries points into the symbol name buffer. -/
theorem symbols_lt_of_prepare {parse : ObjectParser} {newMembers : List NewArchiveMember}
    {kind kind' : ArchiveKind} {deterministic thin : Bool} {data : List MemberData}
    {symNames : List UInt8}
    (h : prepareArchive parse newMembers true kind deterministic thin =
      .ok (data, symNames, kind')) :
    ∀ d ∈ data, ∀ so ∈ d.symbols, so < symNames.length := by
  obtain ⟨-, ret, st, hc, rfl, -⟩ := prepareArchive_ok h
  obtain ⟨hsym, hsn⟩ := computeMemberData_symbols hc
  have hret : ∀ d ∈ ret, ∀ so ∈ d.symbols, so < symNames.length := by
    intro d hd so hso
    have hlt := groupOffsets_lt (hsym ▸ List.mem_map_of_mem _ hd) hso
    rcases hsn with rfl | ⟨he, rfl⟩
    · simpa using hlt
    · simp [he] at hlt
  split
  · exact hret
  · rintro d (_ | ⟨_, hd⟩) so hso
    · simp [computeStringTable] at hso
    · exact hret d hd so hso

/-! ## Every value `print_n_bits` gets is at most the last offset -/

theorem symbolValues_le {bsd : Bool} : ∀ {pos : Nat} {ds : List MemberData},
    (∀ d ∈ ds, ∀ so ∈ d.symbols, so ≤ pos) →
    ∀ v ∈ symbolValues bsd pos ds, v ≤ pos + (ds.dropLast.flatMap MemberData.record).length
  | _, [], _, v, hv => by simp [symbolValues] at hv
  | pos, d :: ds, hso, v, hv => by
    simp only [symbolValues, List.mem_append] at hv
    rcases hv with hv | hv
    · rcases mem_memberValues hv with hv | rfl
      · have := hso d (List.mem_cons_self ..) v hv; omega
      · omega
    · cases ds with
      | nil => simp [symbolValues] at hv
      | cons d' ds =>
        have := symbolValues_le (fun d₁ hd₁ so hs =>
          Nat.le_add_right_of_le (hso d₁ (List.mem_cons_of_mem _ hd₁) so hs)) v hv
        simp only [List.dropLast_cons₂, List.flatMap_cons, List.length_append,
          length_record] at this ⊢
        omega

theorem symbolTableValues_le {kind : ArchiveKind} (hk : kind.Writable) {ds : List MemberData}
    {st : List UInt8} {size pad pos : Nat}
    (hsize : computeSymbolTableSizeAndPad kind (numSymbols ds) (offsetSizeOf kind) st =
      .ok (size, pad))
    (hsym : ∀ d ∈ ds, ∀ so ∈ d.symbols, so < st.length) (hpos : size ≤ pos) :
    ∀ v ∈ symbolTableValues kind pos ds st,
      v ≤ pos + (ds.dropLast.flatMap MemberData.record).length := by
  have ho : offsetSizeOf kind = 4 ∨ offsetSizeOf kind = 8 := by
    unfold offsetSizeOf; split <;> simp
  rw [computeSymbolTableSizeAndPad_ok hk ho] at hsize
  simp only [Except.ok.injEq, Prod.mk.injEq] at hsize
  obtain ⟨rfl, -⟩ := hsize
  have hsv : ∀ v ∈ symbolValues kind.bsd pos ds,
      v ≤ pos + (ds.dropLast.flatMap MemberData.record).length :=
    symbolValues_le fun d hd so hs => by have := hsym d hd so hs; omega
  intro v hv
  simp only [symbolTableValues, List.cons_append, List.mem_cons, List.mem_append] at hv
  rcases hv with rfl | hv | hv
  · -- the entry count, at most the table's size
    have hn : numSymbols ds ≤ numSymbols ds * offsetSizeOf kind :=
      Nat.le_mul_of_pos_right _ (by rcases ho with h | h <;> omega)
    rw [Nat.mul_right_comm]
    generalize numSymbols ds * offsetSizeOf kind = nw at *
    cases hb : kind.bsd <;> simp only [hb, if_true, if_false, Bool.false_eq_true] at hpos ⊢ <;> omega
  · exact hsv v hv
  · split at hv <;> simp at hv; omega


/-- When the table keeps a 32-bit kind, no upgrade happened, the sizing pass's last offset
is below 2^32, and every value of the table written after the magic is at most it. -/
theorem symtab32_bounds {parse : ObjectParser} {newMembers : List NewArchiveMember}
    {kind kind' : ArchiveKind} {deterministic thin : Bool} {data : List MemberData}
    {symNames : List UInt8}
    (h : prepareArchive parse newMembers true kind deterministic thin =
      .ok (data, symNames, kind')) (h32 : is64BitKind kind' = false) :
    kind' = kind ∧ kind.Writable ∧ deterministic = true ∧ ∃ size pad o,
      computeSymbolTableSizeAndPad kind (numSymbols data) (offsetSizeOf kind) symNames =
        .ok (size, pad) ∧
      lastOffset kind deterministic data symNames = .ok o ∧ o < 2 ^ 32 ∧
      o = 8 + (symbolTableHeader kind 8 size).length + size +
        (data.dropLast.flatMap MemberData.record).length ∧
      ∀ v ∈ symbolTableValues kind (8 + (symbolTableHeader kind 8 size).length + size) data
        symNames, v ≤ o := by
  obtain ⟨-, ret, st, -, -, o, ho, hk'⟩ := prepareArchive_ok h
  obtain ⟨hk, rfl, size, pad, hsize, hoeq⟩ := lastOffset_ok ho
  have hlt : ¬ o ≥ sym64Threshold := by
    intro hge
    rw [if_pos hge] at hk'
    split at hk' <;> subst hk' <;> cases h32
  rw [if_neg hlt] at hk'
  subst hk'
  have hw : offsetSizeOf kind' = 4 := by simp [offsetSizeOf, h32]
  rw [hw]
  refine ⟨rfl, hk, rfl, size, pad, o, hsize, ho, by simpa [sym64Threshold] using hlt, hoeq, ?_⟩
  rw [hoeq]
  exact symbolTableValues_le hk (hw ▸ hsize) (symbols_lt_of_prepare h) (by omega)

/-! ## Nothing fails after the magic -/

theorem writeSymbolTable_run_of_prepare {parse : ObjectParser}
    {newMembers : List NewArchiveMember} {kind kind' : ArchiveKind} {deterministic thin : Bool}
    {data : List MemberData} {symNames : List UInt8}
    (h : prepareArchive parse newMembers true kind deterministic thin =
      .ok (data, symNames, kind')) :
    ∃ symtab, (writeSymbolTable kind' deterministic data symNames).run (archiveMagic thin) =
      .ok () (archiveMagic thin ++ symtab) := by
  by_cases hs : SymtabSkipped kind' symNames
  · exact ⟨[], by simp [writeSymbolTable_run_skipped hs]⟩
  obtain ⟨-, ret, st, -, -, o, ho, hk'⟩ := prepareArchive_ok h
  obtain ⟨hk, rfl, -⟩ := lastOffset_ok ho
  have hkw : kind'.Writable := by
    split at hk' <;> [split at hk'; skip] <;> subst hk' <;> first | decide | exact hk
  have ho' : offsetSizeOf kind' = 4 ∨ offsetSizeOf kind' = 8 := by
    unfold offsetSizeOf; split <;> simp
  obtain ⟨size, pad, hsize⟩ : ∃ size pad, computeSymbolTableSizeAndPad kind' (numSymbols data)
      (offsetSizeOf kind') symNames = .ok (size, pad) :=
    ⟨_, _, computeSymbolTableSizeAndPad_ok hkw ho' _ _⟩
  have hv : ∀ v ∈ symbolTableValues kind' ((archiveMagic thin).length +
      (symbolTableHeader kind' (archiveMagic thin).length size).length + size) data symNames,
      NBitsFit kind' v := by
    cases h64 : is64BitKind kind'
    · obtain ⟨rfl, -, -, size₁, pad₁, o₁, hsize₁, -, hlt, -, hle⟩ := symtab32_bounds h h64
      rw [hsize₁] at hsize
      simp only [Except.ok.injEq, Prod.mk.injEq] at hsize
      obtain ⟨rfl, rfl⟩ := hsize
      intro v hv
      exact .inr (lt_of_le_of_lt (hle v (by simpa using hv)) hlt)
    · exact fun _ _ => .inl h64
  exact ⟨_, by rw [writeSymbolTable_run hkw hsize hs _ hv]; simp only [List.append_assoc]; rfl⟩

theorem writeArchiveToStream_run_of_prepare {parse : ObjectParser}
    {newMembers : List NewArchiveMember} {writeSymtab : Bool} {kind kind' : ArchiveKind}
    {deterministic thin : Bool} {data : List MemberData} {symNames : List UInt8}
    (h : prepareArchive parse newMembers writeSymtab kind deterministic thin =
      .ok (data, symNames, kind')) :
    ∃ out, (writeArchiveToStream parse newMembers writeSymtab kind deterministic thin).run [] =
      .ok () out := by
  rw [writeArchiveToStream_run_of_ok h]
  cases writeSymtab
  · exact ⟨_, rfl⟩
  · obtain ⟨symtab, hs⟩ := writeSymbolTable_run_of_prepare h
    exact ⟨_, by simp only [if_true, List.nil_append, hs]; rfl⟩

/-- `write_archive_to_stream` fails only where the computation before the magic fails,
and then it has written nothing. -/
theorem writeArchiveToStream_run_error {parse : ObjectParser}
    {newMembers : List NewArchiveMember} {writeSymtab : Bool} {kind : ArchiveKind}
    {deterministic thin : Bool} {e : ArchiveError} {w' : List UInt8}
    (h : (writeArchiveToStream parse newMembers writeSymtab kind deterministic thin).run [] =
      .error e w') :
    w' = [] ∧ prepareArchive parse newMembers writeSymtab kind deterministic thin = .error e := by
  cases hp : prepareArchive parse newMembers writeSymtab kind deterministic thin with
  | error e' =>
    rw [writeArchiveToStream_run_of_error hp] at h
    cases h
    exact ⟨rfl, rfl⟩
  | ok r =>
    obtain ⟨out, hout⟩ := writeArchiveToStream_run_of_prepare hp
    rw [hout] at h
    cases h


/-- Coff and AixBig are refused by `is_bsd_like`, which nothing calls for an empty member
list without a symbol table: such a call succeeds and writes the magic. -/
theorem unsupported_kind_empty_archive (parse : ObjectParser) (deterministic : Bool) :
    (writeArchiveToStream parse [] false Coff deterministic false).run [] =
        .ok () (archiveMagic false) ∧
      (writeArchiveToStream parse [] false AixBig deterministic false).run [] =
        .ok () (archiveMagic false) :=
  ⟨rfl, rfl⟩

/-! ## The 32-bit table is safe -/

theorem symbol_table_32bit_safe {parse : ObjectParser} {newMembers : List NewArchiveMember}
    {kind kind' : ArchiveKind} {deterministic thin : Bool} {data : List MemberData}
    {symNames : List UInt8}
    (h : prepareArchive parse newMembers true kind deterministic thin =
      .ok (data, symNames, kind'))
    (h32 : is64BitKind kind' = false) :
    kind' = kind ∧
    ∃ size pad o,
      computeSymbolTableSizeAndPad kind (numSymbols data) (offsetSizeOf kind) symNames =
        .ok (size, pad) ∧
      lastOffset kind deterministic data symNames = .ok o ∧ o < 2 ^ 32 ∧
      (∀ v ∈ symbolTableValues kind ((archiveMagic thin).length +
          (symbolTableHeader kind (archiveMagic thin).length size).length + size) data symNames,
        v ≤ o) ∧
      ∃ out, (writeArchiveToStream parse newMembers true kind deterministic thin).run [] =
          .ok () out ∧
        (¬ SymtabSkipped kind symNames → ∀ d, data.getLast? = some d → out.drop o = d.record) := by
  obtain ⟨rfl, hk, rfl, size, pad, o, hsize, ho, hlt, hoeq, hle⟩ := symtab32_bounds h h32
  have hle' : ∀ v ∈ symbolTableValues kind' ((archiveMagic thin).length +
      (symbolTableHeader kind' (archiveMagic thin).length size).length + size) data symNames,
      v ≤ o := by simpa using hle
  refine ⟨rfl, size, pad, o, hsize, ho, hlt, hle', ?_⟩
  obtain ⟨out, hout⟩ := writeArchiveToStream_run_of_prepare h
  refine ⟨out, hout, fun hs d hd => ?_⟩
  rw [writeArchiveToStream_run_of_ok h, if_pos rfl, List.nil_append,
    writeSymbolTable_run hk hsize hs _ fun v hv => .inr (lt_of_le_of_lt (hle' v hv) hlt)] at hout
  cases hout
  -- the last element's record comes after everything the sizing pass counted
  obtain ⟨L, rfl⟩ : ∃ L, data = L ++ [d] := by
    rcases List.eq_nil_or_concat data with rfl | ⟨L, b, rfl⟩
    · cases hd
    · simp at hd
      exact ⟨L, by rw [hd, List.concat_eq_append]⟩
  have hbody := length_symbolTableBody hk hsize ((archiveMagic thin).length +
    (symbolTableHeader kind' (archiveMagic thin).length size).length + size)
  rw [hoeq, List.dropLast_concat, List.flatMap_append, List.flatMap_singleton]
  simp only [← List.append_assoc]
  apply List.drop_left'
  simp only [List.length_append, length_archiveMagic, List.length_replicate] at hbody ⊢
  omega

/-- A parser that reads every non-empty buffer as an object defining the global `f`. -/
def definesF : ObjectParser := fun buf =>
  if buf.isEmpty then none else some [⟨true, true, some [102]⟩]

/-- One object, `f.o`. -/
def oneObject : List NewArchiveMember := [⟨[1, 2], "f.o", 0, 0, 0, 0⟩]

theorem one_object_symtab_32bit :
    ∃ data symNames o, prepareArchive definesF oneObject true Gnu true false =
        .ok (data, symNames, Gnu) ∧
      lastOffset Gnu true data symNames = .ok o ∧ o < 2 ^ 32 := by
  obtain ⟨data, symNames, hp⟩ : ∃ data symNames,
      prepareArchive definesF oneObject true Gnu true false = .ok (data, symNames, Gnu) :=
    ⟨_, _, rfl⟩
  obtain ⟨-, -, -, o, -, ho, hlt, -⟩ := symbol_table_32bit_safe hp rfl
  exact ⟨data, symNames, o, hp, ho, hlt⟩

/-! ## The 64-bit upgrade -/

/-- A BSD archive of a 4 GiB member `big.o` and `f.o`, written with a symbol table: the
sizing pass finds `f.o` past 2^32 and switches the kind to Gnu64, so the symbol table
goes out as a GNU `/SYM64/` member in front of the members' BSD headers. The payload is
any list of 2^32 bytes, so that nothing here builds one. -/
theorem writeArchiveToStream_four_gib_bsd {big : List UInt8} (hlen : big.length = 2 ^ 32) :
    ∃ size body, (writeArchiveToStream definesF [⟨big, "big.o", 0, 0, 0, 0⟩,
      ⟨[1, 2], "f.o", 0, 0, 0, 0⟩] true Bsd true false).run [] =
      .ok () (archiveMagic false ++ printGnuSmallMemberHeader "/SYM64" 0 0 0 0 size ++ body ++
        printBsdMemberHeader 0 "big.o" 0 0 0 0 (2 ^ 32) ++ big ++
        printBsdMemberHeader ((printBsdMemberHeader 0 "big.o" 0 0 0 0 (2 ^ 32)).length + 2 ^ 32)
          "f.o" 0 0 0 0 2 ++ [1, 2]) := by
  have hne : big.isEmpty = false := by cases big <;> simp_all
  -- the 4 GiB member, evaluated through its length only
  have h₁ : computeMember definesF Bsd false true false (initAcc fun _ => none)
      ⟨big, "big.o", 0, 0, 0, 0⟩ =
      .ok (⟨[0], printBsdMemberHeader 0 "big.o" 0 0 0 0 (2 ^ 32), big, []⟩,
        { pos := (printBsdMemberHeader 0 "big.o" 0 0 0 0 (2 ^ 32)).length + 2 ^ 32,
          stringTable := [], symNames := [102, 0], memberNames := fun _ => none,
          filenameCount := fun _ => none, hasObject := true }) := by
    have hd : isDarwin Bsd = false := rfl
    have hp : offsetToAlignment (2 ^ 32 + 0) 2 = 0 := rfl
    have hpad : paddingData (0 + 0) = .ok [] := rfl
    have hdef : definesF big = some [⟨true, true, some [102]⟩] := by simp [definesF, hne]
    have hmax : ¬ (2 ^ 32 + 0 > maxMemberSize) := by decide
    simp only [computeMember, hd, Bool.false_eq_true, if_false, hlen, hp, hpad, ok_bind,
      memberMtime, printMemberHeader_bsd (by decide : Bsd.Writable) rfl, if_true, getSymbols,
      hdef, hmax, pure_bind]
    rfl
  have hc : computeMemberData definesF Bsd false true true
      [⟨big, "big.o", 0, 0, 0, 0⟩, ⟨[1, 2], "f.o", 0, 0, 0, 0⟩] =
      .ok ([⟨[0], printBsdMemberHeader 0 "big.o" 0 0 0 0 (2 ^ 32), big, []⟩,
        ⟨[2], printBsdMemberHeader ((printBsdMemberHeader 0 "big.o" 0 0 0 0 (2 ^ 32)).length +
          2 ^ 32) "f.o" 0 0 0 0 2, [1, 2], []⟩], [], [102, 0, 102, 0]) := by
    show (do
      let (ret, s) ← computeMembers definesF Bsd false true false (initAcc fun _ => none)
        [⟨big, "big.o", 0, 0, 0, 0⟩, ⟨[1, 2], "f.o", 0, 0, 0, 0⟩]
      _) = _
    rw [computeMembers, h₁]
    rfl
  generalize hd₁ : (⟨[0], printBsdMemberHeader 0 "big.o" 0 0 0 0 (2 ^ 32), big, []⟩ :
    MemberData) = d₁ at hc
  generalize hd₂ : (⟨[2], printBsdMemberHeader ((printBsdMemberHeader 0 "big.o" 0 0 0 0
    (2 ^ 32)).length + 2 ^ 32) "f.o" 0 0 0 0 2, [1, 2], []⟩ : MemberData) = d₂ at hc
  have hnum : numSymbols [d₁, d₂] = 2 := by subst hd₁ hd₂; rfl
  -- the sizing pass finds `f.o` past 2^32 and switches to Gnu64
  have hsize : computeSymbolTableSizeAndPad Bsd (numSymbols [d₁, d₂]) 4 [102, 0, 102, 0] =
      .ok (32, 4) := by rw [hnum]; rfl
  have hbig : d₁.data.length = 2 ^ 32 := by subst hd₁; exact hlen
  have hprep : prepareArchive definesF [⟨big, "big.o", 0, 0, 0, 0⟩, ⟨[1, 2], "f.o", 0, 0, 0, 0⟩]
      true Bsd true false = .ok ([d₁, d₂], [102, 0, 102, 0], Gnu64) := by
    rw [prepareArchive_eq (by simp)]
    simp only [hc, ok_bind, List.isEmpty_nil, if_true, symtabKind,
      lastOffset_eq (by decide) _ hsize]
    rw [if_pos (by simp [sym64Threshold]; omega)]
    rfl
  -- the table then goes out as a GNU /SYM64/ member, in front of the BSD member headers
  have hsize' : computeSymbolTableSizeAndPad Gnu64 (numSymbols [d₁, d₂]) (offsetSizeOf Gnu64)
      [102, 0, 102, 0] = .ok (28, 0) := by rw [hnum]; rfl
  rw [writeArchiveToStream_run_of_ok hprep, if_pos rfl, List.nil_append,
    writeSymbolTable_run (by decide) hsize' (by simp [SymtabSkipped]) _ fun _ _ => .inl rfl]
  refine ⟨28, (symbolTableValues Gnu64 ((archiveMagic false).length +
    (symbolTableHeader Gnu64 (archiveMagic false).length 28).length + 28) [d₁, d₂]
    [102, 0, 102, 0]).flatMap (nBits Gnu64) ++ [102, 0, 102, 0], ?_⟩
  subst hd₁ hd₂
  simp only [MemberData.record, List.flatMap_cons, List.flatMap_nil, List.append_nil,
    List.append_assoc, List.replicate_zero, List.nil_append]
  rfl

/-- The members of a BSD archive whose second member starts past 4 GiB. -/
def pastFourGiB : List NewArchiveMember :=
  [⟨List.replicate (2 ^ 32) 0, "big.o", 0, 0, 0, 0⟩, ⟨[1, 2], "f.o", 0, 0, 0, 0⟩]

theorem bsd_upgrade_writes_gnu_symtab :
    ∃ size body, (writeArchiveToStream definesF pastFourGiB true Bsd true false).run [] =
      .ok () (archiveMagic false ++ printGnuSmallMemberHeader "/SYM64" 0 0 0 0 size ++ body ++
        printBsdMemberHeader 0 "big.o" 0 0 0 0 (2 ^ 32) ++ List.replicate (2 ^ 32) 0 ++
        printBsdMemberHeader ((printBsdMemberHeader 0 "big.o" 0 0 0 0 (2 ^ 32)).length + 2 ^ 32)
          "f.o" 0 0 0 0 2 ++ [1, 2]) :=
  writeArchiveToStream_four_gib_bsd (List.length_replicate _ _)

end ArchiveWriter
