import ArchiveWriter.Basic

/-!
# Member headers

`print_member_header` and the printers it dispatches to. A GNU header names a member
inline (`name/`, padded to sixteen characters) or by `/K`, an offset into the `//` string
table; a BSD header writes `#1/L` and puts the name, padded with NULs, right after the
sixty header bytes, so that the payload that follows lands on an 8-byte boundary.
-/

namespace ArchiveWriter

open ArchiveKind

def printRestOfMemberHeader (mtime uid gid perms size : Nat) : List UInt8 :=
  utf8 (fmtLeft 12 (decimal mtime) ++ fmtLeft 6 (decimal (uid % 1000000)) ++
    fmtLeft 6 (decimal (gid % 1000000)) ++ fmtLeft 8 (octal perms) ++
    fmtLeft 10 (decimal size) ++ "`\n".data)

def printGnuSmallMemberHeader (name : String) (mtime uid gid perms size : Nat) : List UInt8 :=
  utf8 (fmtLeft 16 (name.data ++ ['/'])) ++ printRestOfMemberHeader mtime uid gid perms size

def printBsdMemberHeader (pos : Nat) (name : String) (mtime uid gid perms size : Nat) :
    List UInt8 :=
  let posAfterHeader := pos + 60 + byteLen name
  let pad := offsetToAlignment posAfterHeader 8
  let nameWithPadding := byteLen name + pad
  utf8 ("#1/".data ++ fmtLeft 13 (decimal nameWithPadding)) ++
    printRestOfMemberHeader mtime uid gid perms (nameWithPadding + size) ++
    utf8 name.data ++ List.replicate pad 0

def useStringTable (thin : Bool) (name : String) : Bool :=
  thin || 16 ≤ byteLen name || name.data.contains '/'

/-- The `name/\n` record the string table holds for a long name. -/
def stringTableEntry (name : String) : List UInt8 := utf8 (name.data ++ ['/', '\n'])

/-- `print_member_header`: the header bytes, with the string table and the `member_names`
map (name to string-table offset) as they stand after it. -/
def printMemberHeader (pos : Nat) (stringTable : List UInt8)
    (memberNames : String → Option Nat) (kind : ArchiveKind) (thin : Bool)
    (m : NewArchiveMember) (mtime size : Nat) :
    Except ArchiveError (List UInt8 × List UInt8 × (String → Option Nat)) := do
  if ← isBsdLike kind then
    return (printBsdMemberHeader pos m.memberName mtime m.uid.toNat m.gid.toNat m.perms.toNat
      size, stringTable, memberNames)
  if !useStringTable thin m.memberName then
    return (printGnuSmallMemberHeader m.memberName mtime m.uid.toNat m.gid.toNat m.perms.toNat
      size, stringTable, memberNames)
  let (namePos, stringTable', memberNames') :=
    if thin then (stringTable.length, stringTable ++ stringTableEntry m.memberName, memberNames)
    else match memberNames m.memberName with
      | some p => (p, stringTable, memberNames)
      | none => (stringTable.length, stringTable ++ stringTableEntry m.memberName,
          Function.update memberNames m.memberName (some stringTable.length))
  return (utf8 ('/' :: fmtLeft 15 (decimal namePos)) ++
    printRestOfMemberHeader mtime m.uid.toNat m.gid.toNat m.perms.toNat size,
    stringTable', memberNames')

structure MemberData where
  symbols : List Nat
  header : List UInt8
  data : List UInt8
  padding : List UInt8
  deriving DecidableEq, Repr

/-- The bytes a member takes in the archive: header, payload and padding. -/
def MemberData.record (m : MemberData) : List UInt8 := m.header ++ m.data ++ m.padding

def computeStringTable (names : List UInt8) : MemberData :=
  let size := names.length
  let pad := offsetToAlignment size 2
  { symbols := []
    header := utf8 (fmtLeft 48 "//".data ++ fmtLeft 10 (decimal (size + pad)) ++ "`\n".data)
    data := names
    padding := if pad ≠ 0 then [10] else [] }


/-! ## What `print_member_header` does in each family -/

theorem printMemberHeader_bsd {kind : ArchiveKind} (hk : kind.Writable) (hb : kind.bsd = true)
    (pos : Nat) (st : List UInt8) (mn : String → Option Nat) (thin : Bool)
    (m : NewArchiveMember) (mtime size : Nat) :
    printMemberHeader pos st mn kind thin m mtime size =
      .ok (printBsdMemberHeader pos m.memberName mtime m.uid.toNat m.gid.toNat m.perms.toNat
        size, st, mn) := by
  have : isBsdLike kind = .ok true := by
    cases kind <;> simp_all [ArchiveKind.Writable, ArchiveKind.bsd, isBsdLike]
  simp [printMemberHeader, this, pure, Except.pure]

/-- A GNU `print_member_header`, by the way it names the member. -/
theorem printMemberHeader_gnu {kind : ArchiveKind} (hk : kind = Gnu ∨ kind = Gnu64)
    {thin : Bool} {st : List UInt8} {mn : String → Option Nat} {pos : Nat}
    {m : NewArchiveMember} {mtime size : Nat} {header st' : List UInt8}
    {mn' : String → Option Nat}
    (h : printMemberHeader pos st mn kind thin m mtime size = .ok (header, st', mn')) :
    let rest := printRestOfMemberHeader mtime m.uid.toNat m.gid.toNat m.perms.toNat size
    (useStringTable thin m.memberName = false ∧
      header = printGnuSmallMemberHeader m.memberName mtime m.uid.toNat m.gid.toNat
        m.perms.toNat size ∧ st' = st ∧ mn' = mn) ∨
    (useStringTable thin m.memberName = true ∧ thin = true ∧
      header = utf8 ('/' :: fmtLeft 15 (decimal st.length)) ++ rest ∧
      st' = st ++ stringTableEntry m.memberName ∧ mn' = mn) ∨
    (useStringTable thin m.memberName = true ∧ thin = false ∧ ∃ p, mn m.memberName = some p ∧
      header = utf8 ('/' :: fmtLeft 15 (decimal p)) ++ rest ∧ st' = st ∧ mn' = mn) ∨
    (useStringTable thin m.memberName = true ∧ thin = false ∧ mn m.memberName = none ∧
      header = utf8 ('/' :: fmtLeft 15 (decimal st.length)) ++ rest ∧
      st' = st ++ stringTableEntry m.memberName ∧
      mn' = Function.update mn m.memberName (some st.length)) := by
  have hb : isBsdLike kind = .ok false := by rcases hk with rfl | rfl <;> rfl
  simp only [printMemberHeader, hb, except_bind_eq_ok] at h
  obtain ⟨_, h₀, h⟩ := h
  cases h₀
  simp only [Bool.false_eq_true, if_false, pure_bind] at h
  cases hu : useStringTable thin m.memberName
  · simp only [hu, Bool.not_false, if_true, pure, Except.pure, Except.ok.injEq,
      Prod.mk.injEq] at h
    exact .inl ⟨rfl, h.1.symm, h.2.1.symm, h.2.2.symm⟩
  · simp only [hu, Bool.not_true, Bool.false_eq_true, if_false, pure_bind, pure, Except.pure,
      Except.ok.injEq, Prod.mk.injEq] at h
    obtain ⟨rfl, rfl, rfl⟩ := h
    cases thin
    · cases hm : mn m.memberName with
      | some p => exact .inr (.inr (.inl ⟨rfl, rfl, p, rfl, by simp [hm]⟩))
      | none => exact .inr (.inr (.inr ⟨rfl, rfl, rfl, by simp [hm]⟩))
    · exact .inr (.inl ⟨rfl, rfl, by simp⟩)

end ArchiveWriter
