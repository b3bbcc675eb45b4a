import ArchiveWriter.MemberData

/-!
# Writing an archive

`write_archive_to_stream` checks the thin-mode precondition, computes the member data,
prepends the `//` string-table member when there are long names, and, when a symbol
table is wanted, sizes it in a first pass with 32-bit entries: if the last member would
then start at or past 2^32, the kind is switched to a 64-bit one. Only after that is the
magic written, then the symbol table, then every member.
-/

namespace ArchiveWriter

open ArchiveKind

def sym64Threshold : Nat := 2 ^ 32

/-- The loop of the sizing pass over `data`: the offset of the last element's header and
the number of symbols, with the symbol table left out. -/
def sizingLoop : (maxOffset lastOffset numSyms : Nat) → List MemberData → Nat × Nat
  | _, lastOffset, numSyms, [] => (lastOffset, numSyms)
  | maxOffset, _, numSyms, m :: ms =>
    sizingLoop (maxOffset + (m.header.length + m.data.length + m.padding.length)) maxOffset
      (numSyms + m.symbols.length) ms

/-- The header `write_symbol_table_header` writes into a fresh cursor, as the sizing pass
measures it. -/
def symbolTableHeaderSize (kind : ArchiveKind) (deterministic : Bool) (size : Nat) :
    Except ArchiveError Nat :=
  match (writeSymbolTableHeader kind deterministic size).run [] with
  | .ok () tmp => .ok tmp.length
  | .error e _ => .error e

/-- The first pass of `write_archive_to_stream`: where the last element of `data` would
start behind a symbol table of 32-bit entries. -/
def lastOffset (kind : ArchiveKind) (deterministic : Bool) (data : List MemberData)
    (symNames : List UInt8) : Except ArchiveError Nat := do
  let (lastOffset, numSyms) := sizingLoop 8 8 0 data
  let (symtabSize, _) ← computeSymbolTableSizeAndPad kind numSyms 4 symNames
  let headerSize ← symbolTableHeaderSize kind deterministic symtabSize
  return lastOffset + (headerSize + symtabSize)

/-- The kind the symbol table and the offsets in it are written in. -/
def symtabKind (kind : ArchiveKind) (deterministic : Bool) (data : List MemberData)
    (symNames : List UInt8) : Except ArchiveError ArchiveKind := do
  let lastOffset ← lastOffset kind deterministic data symNames
  return if lastOffset ≥ sym64Threshold then (if kind = Darwin then Darwin64 else Gnu64)
    else kind

/-- The last loop of `write_archive_to_stream`: header, payload and padding of each
member. -/
def writeMembers : List MemberData → Out Unit
  | [] => pure ()
  | m :: ms => do
    writeAll m.header
    writeAll m.data
    writeAll m.padding
    writeMembers ms

def archiveMagic (thin : Bool) : List UInt8 :=
  utf8 (if thin then "!<thin>\n" else "!<arch>\n").data

/-- The part of `write_archive_to_stream` before its first write, none of which touches
`w`: the thin-mode assertion, the member data with the string-table member in front, the
symbol names, and the kind the symbol table is written in. -/
def prepareArchive (parse : ObjectParser) (newMembers : List NewArchiveMember)
    (writeSymtab : Bool) (kind : ArchiveKind) (deterministic thin : Bool) :
    Except ArchiveError (List MemberData × List UInt8 × ArchiveKind) := do
  if thin then
    if ← isBsdLike kind then .error (.panic "Only the gnu format has a thin mode")
  let (data, stringTable, symNames) ←
    computeMemberData parse kind thin deterministic writeSymtab newMembers
  let data := if stringTable.isEmpty then data else computeStringTable stringTable :: data
  let kind ← if writeSymtab then symtabKind kind deterministic data symNames else pure kind
  return (data, symNames, kind)

/-- `write_archive_to_stream`: the computation above, then the magic, the symbol table and
the members. -/
def writeArchiveToStream (parse : ObjectParser) (newMembers : List NewArchiveMember)
    (writeSymtab : Bool) (kind : ArchiveKind) (deterministic thin : Bool) : Out Unit := do
  let (data, symNames, kind) ←
    liftExcept (prepareArchive parse newMembers writeSymtab kind deterministic thin)
  writeAll (archiveMagic thin)
  if writeSymtab then writeSymbolTable kind deterministic data symNames
  writeMembers data


/-! ## Running the writer -/

theorem writeMembers_run (ds : List MemberData) (w : List UInt8) :
    (writeMembers ds).run w = .ok () (w ++ ds.flatMap MemberData.record) := by
  induction ds generalizing w with
  | nil => simp [writeMembers]
  | cons d ds ih => simp [writeMembers, ih, MemberData.record]

/-- Where each record of `ds` starts when the records follow `base` bytes. -/
def recordOffsets : Nat → List MemberData → List Nat
  | _, [] => []
  | base, d :: ds => base :: recordOffsets (base + d.record.length) ds

theorem writeArchiveToStream_run_of_error {parse : ObjectParser}
    {newMembers : List NewArchiveMember} {writeSymtab : Bool} {kind : ArchiveKind}
    {deterministic thin : Bool} {e : ArchiveError}
    (h : prepareArchive parse newMembers writeSymtab kind deterministic thin = .error e)
    (w : List UInt8) :
    (writeArchiveToStream parse newMembers writeSymtab kind deterministic thin).run w =
      .error e w := by
  simp [writeArchiveToStream, h]

/-- Once the member data are known, the magic goes out, then the symbol table, then the
records of `data` one after another. -/
theorem writeArchiveToStream_run_of_ok {parse : ObjectParser}
    {newMembers : List NewArchiveMember} {writeSymtab : Bool} {kind kind' : ArchiveKind}
    {deterministic thin : Bool} {data : List MemberData} {symNames : List UInt8}
    (h : prepareArchive parse newMembers writeSymtab kind deterministic thin =
      .ok (data, symNames, kind')) (w : List UInt8) :
    (writeArchiveToStream parse newMembers writeSymtab kind deterministic thin).run w =
      if writeSymtab then
        match (writeSymbolTable kind' deterministic data symNames).run (w ++ archiveMagic thin) with
        | .ok () w' => .ok () (w' ++ data.flatMap MemberData.record)
        | .error e w' => .error e w'
      else .ok () (w ++ archiveMagic thin ++ data.flatMap MemberData.record) := by
  cases writeSymtab
  · simp [writeArchiveToStream, h, writeMembers_run]
  · simp only [writeArchiveToStream, h, bind_run, liftExcept_ok_run, writeAll_run, if_true]
    split <;> simp_all [writeMembers_run]

theorem writeArchiveToStream_run_ok {parse : ObjectParser}
    {newMembers : List NewArchiveMember} {writeSymtab : Bool} {kind : ArchiveKind}
    {deterministic thin : Bool} {w out : List UInt8} {u : Unit}
    (h : (writeArchiveToStream parse newMembers writeSymtab kind deterministic thin).run w =
      .ok u out) :
    ∃ data symNames kind',
      prepareArchive parse newMembers writeSymtab kind deterministic thin =
        .ok (data, symNames, kind') ∧
      ∃ symtab, (if writeSymtab then
          (writeSymbolTable kind' deterministic data symNames).run (w ++ archiveMagic thin) =
            .ok () (w ++ archiveMagic thin ++ symtab)
        else symtab = []) ∧
        out = w ++ archiveMagic thin ++ symtab ++ data.flatMap MemberData.record := by
  cases hp : prepareArchive parse newMembers writeSymtab kind deterministic thin with
  | error e => rw [writeArchiveToStream_run_of_error hp] at h; cases h
  | ok r =>
    obtain ⟨data, symNames, kind'⟩ := r
    refine ⟨data, symNames, kind', rfl, ?_⟩
    rw [writeArchiveToStream_run_of_ok hp] at h
    cases writeSymtab
    · cases h; exact ⟨[], rfl, by simp⟩
    · simp only [if_true] at h ⊢
      split at h
      · rename_i w' hw
        cases h
        obtain ⟨symtab, rfl⟩ : ∃ symtab, w' = w ++ archiveMagic thin ++ symtab := by
          rcases writeSymbolTable_run_ok hw with ⟨-, rfl⟩ | ⟨-, -, -, -, -, -, -, rfl⟩
          · exact ⟨[], by simp⟩
          · exact ⟨_, by simp only [List.append_assoc]; rfl⟩
        exact ⟨symtab, hw, rfl⟩
      · cases h

end ArchiveWriter
