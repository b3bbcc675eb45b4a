import ArchiveWriter.Sizing
import ArchiveWriter.Timestamps

/-!
# What a call makes of its input

Two facts about `write_archive_to_stream` as a whole. It refuses an input for one of a
few reasons, each a check or a panic of the source, and for no other: thin mode on a kind
other than Gnu and Gnu64, Coff and AixBig once a member header or a symbol table is
printed, a member too big for the size field, an archive symbol the parser cannot name,
and a symbol table in non-deterministic mode, where `now` is `todo!()`
(`writeArchiveToStream_error_iff`). It writes a symbol-table member exactly when some
member's payload is an object or the table's kind is a Darwin one
(`symbol_table_present_iff`).
-/

namespace ArchiveWriter

open ArchiveKind

/-! ## The reasons to refuse -/

/-- Whether the payload `get_symbols` is handed for `m` has an archive symbol whose name
the parser cannot give, where `sym.name_bytes().expect("FIXME")` panics. -/
def hasUnnamedSymbol (parse : ObjectParser) (thin : Bool) (m : NewArchiveMember) : Bool :=
  ((parse (if thin then [] else m.buf)).getD []).any fun sym =>
    isArchiveSymbol sym && sym.nameBytes.isNone

/-- Why the member loop stops at `m`: the size check, `is_bsd_like` on Coff and AixBig in
`print_member_header`, or a symbol without a name. -/
def MemberRefused (parse : ObjectParser) (kind : ArchiveKind) (thin needSymbols : Bool)
    (m : NewArchiveMember) : Prop :=
  maxMemberSize < memberSize kind thin m ∨ ¬ kind.Writable ∨
    needSymbols = true ∧ hasUnnamedSymbol parse thin m = true

instance (parse : ObjectParser) (kind : ArchiveKind) (thin needSymbols : Bool)
    (m : NewArchiveMember) : Decidable (MemberRefused parse kind thin needSymbols m) :=
  inferInstanceAs (Decidable (_ ∨ _ ∨ _ ∧ _))

/-- The inputs `write_archive_to_stream` refuses: thin mode on a kind other than Gnu and
Gnu64, a member the loop stops at, or a symbol table on Coff or AixBig or in
non-deterministic mode. -/
def Refused (parse : ObjectParser) (newMembers : List NewArchiveMember) (writeSymtab : Bool)
    (kind : ArchiveKind) (deterministic thin : Bool) : Prop :=
  (thin = true ∧ kind ≠ Gnu ∧ kind ≠ Gnu64) ∨
    (∃ m ∈ newMembers, MemberRefused parse kind thin writeSymtab m) ∨
    writeSymtab = true ∧ (¬ kind.Writable ∨ deterministic = false)

instance (parse : ObjectParser) (newMembers : List NewArchiveMember) (writeSymtab : Bool)
    (kind : ArchiveKind) (deterministic thin : Bool) :
    Decidable (Refused parse newMembers writeSymtab kind deterministic thin) :=
  inferInstanceAs (Decidable (_ ∨ _ ∨ _))

/-! ## One member -/

theorem offsetToAlignment_lt {align : Nat} (h : 0 < align) (value : Nat) :
    offsetToAlignment value align < align :=
  Nat.mod_lt _ h

/-- The slice of `PADDING_DATA` a member takes is never longer than the eight bytes. -/
theorem paddingData_member (kind : ArchiveKind) (n : Nat) :
    let memberPadding := if isDarwin kind then offsetToAlignment n 8 else 0
    paddingData (memberPadding + offsetToAlignment (n + memberPadding) 2) =
      .ok (List.replicate (memberPadding + offsetToAlignment (n + memberPadding) 2) 10) := by
  have h8 := offsetToAlignment_lt (by decide : 0 < 8) n
  have h2 := offsetToAlignment_lt (by decide : 0 < 2)
    (n + if isDarwin kind then offsetToAlignment n 8 else 0)
  have hp : (if isDarwin kind then offsetToAlignment n 8 else 0) < 8 := by split <;> omega
  exact if_pos (by omega)

/-- `filename_count.get_mut(name).unwrap()` succeeds while every name has a count, and
raising one count keeps every name counted. -/
theorem memberMtime_ok_of_isSome {unique : Bool} {fc : String → Option Nat}
    {m : NewArchiveMember} (h : unique = true → (fc m.memberName).isSome) :
    ∃ t fc', memberMtime unique fc m = .ok (t, fc') ∧ ∀ n, (fc n).isSome → (fc' n).isSome := by
  cases unique
  · exact ⟨_, _, rfl, fun _ => id⟩
  · obtain ⟨c, hc⟩ := Option.isSome_iff_exists.1 (h rfl)
    refine ⟨_, _, by simp only [memberMtime, if_true, hc]; rfl, fun n _ => ?_⟩
    by_cases hn : n = m.memberName
    · subst hn; simp
    · simpa [Function.update_noteq hn]

theorem printMemberHeader_ok_of_writable {kind : ArchiveKind} (hk : kind.Writable)
    (pos : Nat) (st : List UInt8) (mn : String → Option Nat) (thin : Bool)
    (m : NewArchiveMember) (mtime size : Nat) :
    ∃ r, printMemberHeader pos st mn kind thin m mtime size = .ok r := by
  cases hb : kind.bsd
  · have : isBsdLike kind = .ok false := by
      cases kind <;> simp_all [ArchiveKind.Writable, ArchiveKind.bsd, isBsdLike]
    simp only [printMemberHeader, this, bind, Except.bind, pure, Except.pure,
      Bool.false_eq_true, if_false]
    split <;> exact ⟨_, rfl⟩
  · exact ⟨_, printMemberHeader_bsd hk hb pos st mn thin m mtime size⟩

theorem writable_of_printMemberHeader_ok {kind : ArchiveKind} {pos : Nat} {st : List UInt8}
    {mn : String → Option Nat} {thin : Bool} {m : NewArchiveMember} {mtime size : Nat}
    {r : List UInt8 × List UInt8 × (String → Option Nat)}
    (h : printMemberHeader pos st mn kind thin m mtime size = .ok r) : kind.Writable := by
  cases kind <;> first | decide | simp [printMemberHeader, isBsdLike] at h

/-- The loop of `get_symbols` stops exactly at an archive symbol without a name. -/
theorem addArchiveSymbols_ok_iff {syms : List ObjectSymbol} {symNames : List UInt8} :
    (∃ r, addArchiveSymbols syms symNames = .ok r) ↔
      syms.any (fun sym => isArchiveSymbol sym && sym.nameBytes.isNone) = false := by
  induction syms generalizing symNames with
  | nil => simp [addArchiveSymbols]
  | cons sym syms ih =>
    by_cases ha : isArchiveSymbol sym
    · cases hn : sym.nameBytes with
      | none => simp [addArchiveSymbols, ha, hn]
      | some name =>
        simp only [addArchiveSymbols, ha, hn, Bool.not_true, Bool.false_eq_true, if_false,
          List.any_cons, Option.isNone_some, Bool.and_false, Bool.false_or]
        exact (exists_bind_ok_iff fun _ => ⟨_, rfl⟩).trans ih
    · simpa [addArchiveSymbols, ha] using ih

theorem getSymbols_ok_iff {parse : ObjectParser} {buf symNames : List UInt8}
    {hasObject : Bool} :
    (∃ r, getSymbols parse buf symNames hasObject = .ok r) ↔
      ((parse buf).getD []).any (fun sym => isArchiveSymbol sym && sym.nameBytes.isNone) =
        false := by
  unfold getSymbols
  split
  · rename_i syms hp
    rw [hp, Option.getD_some, ← addArchiveSymbols_ok_iff]
    exact exists_bind_ok_iff fun _ => ⟨_, rfl⟩
  · rename_i hp
    simp [hp]

/-- A member the loop does not stop at is computed, and every name keeps its count. -/
theorem computeMember_ok_of_not_refused {parse : ObjectParser} {kind : ArchiveKind}
    {thin needSymbols uniqueTimestamps : Bool} {s : Acc} {m : NewArchiveMember}
    (hm : ¬ MemberRefused parse kind thin needSymbols m)
    (hfc : uniqueTimestamps = true → (s.filenameCount m.memberName).isSome) :
    ∃ d s', computeMember parse kind thin needSymbols uniqueTimestamps s m = .ok (d, s') ∧
      ∀ n, (s.filenameCount n).isSome → (s'.filenameCount n).isSome := by
  simp only [MemberRefused, not_or, not_and, not_lt, not_not, Bool.not_eq_true] at hm
  obtain ⟨hsize, hk, hsym⟩ := hm
  obtain ⟨t, fc', hmt, hinv⟩ := memberMtime_ok_of_isSome hfc
  obtain ⟨⟨header, st, mn⟩, hh⟩ := printMemberHeader_ok_of_writable hk s.pos s.stringTable
    s.memberNames thin m t (memberSize kind thin m)
  simp only [memberSize] at hsize hh
  obtain ⟨d, s', h, rfl⟩ : ∃ d s', computeMember parse kind thin needSymbols uniqueTimestamps
      s m = .ok (d, s') ∧ s'.filenameCount = fc' := by
    simp only [computeMember, paddingData_member, hmt, hh, if_neg (not_lt.2 hsize),
      bind, Except.bind, pure, Except.pure]
    cases needSymbols
    · exact ⟨_, _, rfl, rfl⟩
    · obtain ⟨⟨syms, sn, ho⟩, hs⟩ := (@getSymbols_ok_iff parse _ s.symNames s.hasObject).2 (hsym rfl)
      simp only [if_true, hs]
      exact ⟨_, _, rfl, rfl⟩
  exact ⟨d, s', h, hinv⟩

theorem not_refused_of_computeMember_ok {parse : ObjectParser} {kind : ArchiveKind}
    {thin needSymbols uniqueTimestamps : Bool} {s s' : Acc} {m : NewArchiveMember}
    {d : MemberData}
    (h : computeMember parse kind thin needSymbols uniqueTimestamps s m = .ok (d, s')) :
    ¬ MemberRefused parse kind thin needSymbols m := by
  obtain ⟨mtime, -, -, hsize, -, hhdr, hsym, -⟩ := computeMember_ok h
  simp only [MemberRefused, memberSize, not_or, not_and, not_lt, not_not, Bool.not_eq_true]
  refine ⟨hsize, writable_of_printMemberHeader_ok hhdr, fun hn => ?_⟩
  subst hn
  exact getSymbols_ok_iff.1 ⟨_, hsym⟩

/-! ## The member loop and the whole call -/

/-- The member loop gets through exactly the lists with no member it stops at, as long as
every name has a count where timestamps are made unique. -/
theorem computeMembers_ok_iff {parse : ObjectParser} {kind : ArchiveKind}
    {thin needSymbols uniqueTimestamps : Bool} :
    ∀ {s : Acc} {ms : List NewArchiveMember},
    (uniqueTimestamps = true → ∀ m ∈ ms, (s.filenameCount m.memberName).isSome) →
    ((∃ r, computeMembers parse kind thin needSymbols uniqueTimestamps s ms = .ok r) ↔
      ∀ m ∈ ms, ¬ MemberRefused parse kind thin needSymbols m)
  | s, [], _ => by simp [computeMembers]
  | s, m :: ms, hfc => by
    have hm : uniqueTimestamps = true → (s.filenameCount m.memberName).isSome :=
      fun hu => hfc hu m (List.mem_cons_self ..)
    have hrest {s' : Acc} (hs' : ∀ n, (s.filenameCount n).isSome → (s'.filenameCount n).isSome) :
        uniqueTimestamps = true → ∀ m' ∈ ms, (s'.filenameCount m'.memberName).isSome :=
      fun hu m' hm' => hs' _ (hfc hu m' (List.mem_cons_of_mem _ hm'))
    rw [List.forall_mem_cons]
    constructor
    · rintro ⟨⟨ds, s''⟩, h⟩
      obtain ⟨d, s', ds', h₁, h₂, -⟩ := computeMembers_cons_ok h
      have hnot := not_refused_of_computeMember_ok h₁
      obtain ⟨d₀, s₀, h₀, hs₀⟩ := computeMember_ok_of_not_refused hnot hm
      rw [h₀] at h₁
      cases h₁
      exact ⟨hnot, (computeMembers_ok_iff (hrest hs₀)).1 ⟨_, h₂⟩⟩
    · rintro ⟨hnot, hms⟩
      obtain ⟨d, s', h₁, hs'⟩ := computeMember_ok_of_not_refused hnot hm
      obtain ⟨⟨ds, s''⟩, h₂⟩ := (computeMembers_ok_iff (hrest hs')).2 hms
      exact ⟨_, by simp only [computeMembers, h₁, ok_bind, h₂]; rfl⟩

theorem computeMemberData_ok_iff {parse : ObjectParser} {kind : ArchiveKind}
    {thin deterministic needSymbols : Bool} {newMembers : List NewArchiveMember} :
    (∃ r, computeMemberData parse kind thin deterministic needSymbols newMembers = .ok r) ↔
      ∀ m ∈ newMembers, ¬ MemberRefused parse kind thin needSymbols m := by
  have hfc : (deterministic && isDarwin kind) = true → ∀ m ∈ newMembers,
      ((initAcc (if (deterministic && isDarwin kind) = true then lowerCounts (countNames newMembers)
        else fun _ => none)).filenameCount m.memberName).isSome := by
    intro hu m hm
    simp [initAcc, hu, lowerCounts_countNames hm]
  rw [← computeMembers_ok_iff hfc]
  simp only [computeMemberData, initAcc]
  exact exists_bind_ok_iff fun _ => ⟨_, rfl⟩

/-- The sizing pass gets through exactly on the writable kinds in deterministic mode. -/
theorem symtabKind_ok_iff {kind : ArchiveKind} {deterministic : Bool} (data : List MemberData)
    (symNames : List UInt8) :
    (∃ k, symtabKind kind deterministic data symNames = .ok k) ↔
      kind.Writable ∧ deterministic = true := by
  constructor
  · rintro ⟨k, hk⟩
    simp only [symtabKind, except_bind_eq_ok] at hk
    obtain ⟨o, ho, -⟩ := hk
    obtain ⟨hw, hd, -⟩ := lastOffset_ok ho
    exact ⟨hw, hd⟩
  · rintro ⟨hw, rfl⟩
    rw [symtabKind, lastOffset_eq hw data (computeSymbolTableSizeAndPad_ok hw (.inl rfl) _ _)]
    exact ⟨_, rfl⟩

theorem prepareArchive_ok_iff {parse : ObjectParser} {newMembers : List NewArchiveMember}
    {writeSymtab : Bool} {kind : ArchiveKind} {deterministic thin : Bool} :
    (∃ r, prepareArchive parse newMembers writeSymtab kind deterministic thin = .ok r) ↔
      ¬ Refused parse newMembers writeSymtab kind deterministic thin := by
  simp only [Refused, not_or, not_and, not_exists, not_not, Bool.not_eq_false]
  constructor
  · rintro ⟨⟨data, symNames, kind'⟩, h⟩
    obtain ⟨hthin, ret, st, hc, -, hk⟩ := prepareArchive_ok h
    refine ⟨fun ht hg => ?_, fun m hm => computeMemberData_ok_iff.1 ⟨_, hc⟩ m hm, fun hw => ?_⟩
    · cases kind <;> simp_all [isBsdLike]
    · rw [if_pos hw] at hk
      obtain ⟨o, ho, -⟩ := hk
      obtain ⟨hk', hd, -⟩ := lastOffset_ok ho
      exact ⟨hk', hd⟩
  · rintro ⟨hthin, hms, hsym⟩
    have hb : thin = true → isBsdLike kind = .ok false := fun ht => by
      cases kind <;> simp_all [isBsdLike]
    obtain ⟨⟨ret, st, sn⟩, hc⟩ := computeMemberData_ok_iff.2 hms
    rw [prepareArchive_eq hb, hc]
    cases writeSymtab
    · exact ⟨_, rfl⟩
    · obtain ⟨k, hk⟩ := (symtabKind_ok_iff
        (if st.isEmpty then ret else computeStringTable st :: ret) sn).2 (hsym rfl)
      exact ⟨_, by simp only [ok_bind, if_true, hk]; rfl⟩

/-- `write_archive_to_stream` into an empty stream fails, having written nothing, exactly
on the refused inputs, and returns `Ok` exactly on the others. -/
theorem writeArchiveToStream_error_iff {parse : ObjectParser}
    {newMembers : List NewArchiveMember} {writeSymtab : Bool} {kind : ArchiveKind}
    {deterministic thin : Bool} :
    ((∃ e, (writeArchiveToStream parse newMembers writeSymtab kind deterministic thin).run [] =
      .error e []) ↔ Refused parse newMembers writeSymtab kind deterministic thin) ∧
    ((∃ out, (writeArchiveToStream parse newMembers writeSymtab kind deterministic thin).run [] =
      .ok () out) ↔ ¬ Refused parse newMembers writeSymtab kind deterministic thin) := by
  have hiff := @prepareArchive_ok_iff parse newMembers writeSymtab kind deterministic thin
  refine ⟨⟨fun ⟨e, h⟩ => ?_, fun hr => ?_⟩, ⟨fun ⟨out, h⟩ hr => ?_, fun hr => ?_⟩⟩
  · -- every failure is a failure of the part before the first write
    obtain ⟨-, hp⟩ := writeArchiveToStream_run_error h
    refine not_not.1 fun hr => ?_
    obtain ⟨r, hr'⟩ := hiff.2 hr
    rw [hp] at hr'
    cases hr'
  · cases hp : prepareArchive parse newMembers writeSymtab kind deterministic thin with
    | error e => exact ⟨e, writeArchiveToStream_run_of_error hp []⟩
    | ok r => exact absurd hr (hiff.1 ⟨r, hp⟩)
  · cases hp : prepareArchive parse newMembers writeSymtab kind deterministic thin with
    | error e =>
      rw [writeArchiveToStream_run_of_error hp] at h
      cases h
    | ok r => exact hiff.1 ⟨r, hp⟩ hr
  · obtain ⟨⟨data, symNames, kind'⟩, hp⟩ := hiff.2 hr
    exact writeArchiveToStream_run_of_prepare hp

/-- A symbol table in non-deterministic mode is refused whatever the members are. -/
example : Refused definesF [] true Gnu false false := by decide

/-! ## When a symbol table is written -/

/-- The symbol name buffer is empty exactly when no member's payload is an object: an
object without archive symbols still leaves the three NULs written for Solaris tools. -/
theorem computeMemberData_symNames_eq_nil {parse : ObjectParser} {kind : ArchiveKind}
    {thin deterministic : Bool} {newMembers : List NewArchiveMember} {ret : List MemberData}
    {stringTable symNames : List UInt8}
    (h : computeMemberData parse kind thin deterministic true newMembers =
      .ok (ret, stringTable, symNames)) :
    symNames = [] ↔ ∀ m ∈ newMembers, parse (if thin then [] else m.buf) = none := by
  obtain ⟨s, hs, -, rfl⟩ := computeMemberData_ok h
  obtain ⟨-, hsn, hho⟩ := computeMembers_symbols hs
  simp only [initAcc, List.nil_append, Bool.false_or] at hsn hho
  cases hobj : s.hasObject
  · have hnone : ∀ m ∈ newMembers, parse (if thin then [] else m.buf) = none := by
      intro m hm
      have := List.any_eq_false.1 (hho ▸ hobj) m hm
      simpa using this
    have hempty : (newMembers.map (memberSymbolNames parse thin)).flatten = [] := by
      simp only [List.flatten_eq_nil_iff, List.mem_map]
      rintro _ ⟨m, hm, rfl⟩
      simp [memberSymbolNames, payloadSymbolNames, hnone m hm]
    exact iff_of_true (by simp [hobj, hsn, hempty]) hnone
  · obtain ⟨m, hm, hp⟩ := List.any_eq_true.1 (hho ▸ hobj)
    refine iff_of_false ?_ fun hall => by simp [hall m hm] at hp
    split <;> simp_all

/-- With a symbol table requested, a symbol-table member follows the magic exactly when
some member's payload is an object or the table's kind (after the 64-bit upgrade) is a
Darwin one; otherwise the members follow the magic directly. -/
theorem symbol_table_present_iff {parse : ObjectParser} {newMembers : List NewArchiveMember}
    {kind : ArchiveKind} {deterministic thin : Bool} {u : Unit} {out : List UInt8}
    (h : (writeArchiveToStream parse newMembers true kind deterministic thin).run [] =
      .ok u out) :
    ∃ data symNames kind',
      prepareArchive parse newMembers true kind deterministic thin = .ok (data, symNames, kind') ∧
      if (∃ m ∈ newMembers, (parse (if thin then [] else m.buf)).isSome) ∨ isDarwin kind' then
        ∃ size body, out = archiveMagic thin ++ symbolTableHeader kind' 8 size ++ body ++
          data.flatMap MemberData.record
      else out = archiveMagic thin ++ data.flatMap MemberData.record := by
  obtain ⟨data, symNames, kind', hp, symtab, hsymtab, hout⟩ := writeArchiveToStream_run_ok h
  obtain ⟨-, ret, st, hc, -⟩ := prepareArchive_ok hp
  have hskip : SymtabSkipped kind' symNames ↔
      ¬ ((∃ m ∈ newMembers, (parse (if thin then [] else m.buf)).isSome) ∨ isDarwin kind') := by
    simp [SymtabSkipped, computeMemberData_symNames_eq_nil hc, Option.isNone_iff_eq_none]
  refine ⟨data, symNames, kind', hp, ?_⟩
  simp only [if_true, List.nil_append] at hsymtab hout
  rcases writeSymbolTable_run_ok hsymtab with ⟨hs, hw⟩ | ⟨hs, -, -, size, pad, -, -, hw⟩
  · rw [if_neg (hskip.1 hs), hout, List.self_eq_append_right.1 hw.symm]
    simp
  · obtain ⟨body, hbody⟩ : ∃ body, symtab = symbolTableHeader kind' 8 size ++ body := by
      rw [length_archiveMagic] at hw
      exact ⟨_, List.append_cancel_left (by simpa only [List.append_assoc] using hw)⟩
    rw [if_pos (not_not.1 (mt hskip.2 hs)), hout, hbody]
    exact ⟨size, body, by simp only [List.append_assoc]⟩

/-- An object whose only symbol is local, so that it has no archive symbol. -/
def localOnly : ObjectParser := fun buf =>
  if buf.isEmpty then none else some [⟨false, true, some [102]⟩]

/-- An archive without members gets a symbol table on Darwin, whose linker needs one; and a
GNU archive of `f.o` gets one, of three NULs, although `f.o` has no archive symbol. -/
theorem symbol_table_present_cases :
    (∃ out, (writeArchiveToStream definesF [] true Darwin true false).run [] = .ok () out ∧
      ∃ data symNames kind',
        prepareArchive definesF [] true Darwin true false = .ok (data, symNames, kind') ∧
        if (∃ m ∈ ([] : List NewArchiveMember), (definesF (if false then [] else m.buf)).isSome) ∨
            isDarwin kind' then
          ∃ size body, out = archiveMagic false ++ symbolTableHeader kind' 8 size ++ body ++
            data.flatMap MemberData.record
        else out = archiveMagic false ++ data.flatMap MemberData.record) ∧
    (∃ out, (writeArchiveToStream localOnly oneObject true Gnu true false).run [] = .ok () out ∧
      ∃ data symNames kind',
        prepareArchive localOnly oneObject true Gnu true false = .ok (data, symNames, kind') ∧
        if (∃ m ∈ oneObject, (localOnly (if false then [] else m.buf)).isSome) ∨
            isDarwin kind' then
          ∃ size body, out = archiveMagic false ++ symbolTableHeader kind' 8 size ++ body ++
            data.flatMap MemberData.record
        else out = archiveMagic false ++ data.flatMap MemberData.record) := by
  obtain ⟨out, h⟩ : ∃ out,
      (writeArchiveToStream definesF [] true Darwin true false).run [] = .ok () out := ⟨_, rfl⟩
  obtain ⟨out', h'⟩ : ∃ out,
      (writeArchiveToStream localOnly oneObject true Gnu true false).run [] = .ok () out :=
    ⟨_, rfl⟩
  exact ⟨⟨out, h, symbol_table_present_iff h⟩, ⟨out', h', symbol_table_present_iff h'⟩⟩

end ArchiveWriter
