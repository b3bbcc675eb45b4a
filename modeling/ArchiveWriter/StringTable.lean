import ArchiveWriter.MemberData

/-!
# The string table

For a GNU kind, `print_member_header` sends a long name (sixteen bytes or more, or holding
a `/`; every name in a thin archive) to the string table as a `name/\n` record and writes
`/K` in the header, `K` the record's offset. Outside thin mode a name already recorded is
found in `member_names` and its offset reused. The invariant `TableInv` says what the
table and the map hold after each member; `string_table_construction` reads it off at
the end of `compute_member_data`.
-/

namespace ArchiveWriter

open ArchiveKind

/-- A name joins the table's names unless it is there already. -/
def addName (recs : List String) (n : String) : List String :=
  if n ∈ recs then recs else recs ++ [n]

/-- The names in order of first occurrence, each once. -/
def firstOccurrences (ns : List String) : List String := ns.foldl addName []

/-- The names whose `name/\n` records the string table holds once the members named
`names` have been printed: all of them in a thin archive, else each long name once. -/
def tableNames (thin : Bool) (names : List String) : List String :=
  if thin then names else firstOccurrences (names.filter (useStringTable false))

/-- The byte offset of the `j`-th record of a table of names. -/
def recordOffset (recs : List String) (j : Nat) : Nat :=
  ((recs.take j).flatMap stringTableEntry).length

theorem addName_extends (recs : List String) (n : String) : recs <+: addName recs n := by
  unfold addName; split
  · exact List.prefix_refl _
  · exact List.prefix_append _ _

theorem firstOccurrences_append (ns : List String) (n : String) :
    firstOccurrences (ns ++ [n]) = addName (firstOccurrences ns) n := by
  simp [firstOccurrences, List.foldl_append]

theorem nodup_addName {recs : List String} (h : recs.Nodup) (n : String) :
    (addName recs n).Nodup := by
  unfold addName; split
  · exact h
  · exact h.append (List.nodup_singleton n) (by simpa using ‹n ∉ recs›)

theorem nodup_firstOccurrences (ns : List String) : (firstOccurrences ns).Nodup := by
  induction ns using List.reverseRecOn with
  | nil => exact List.nodup_nil
  | append_singleton ns n ih => rw [firstOccurrences_append]; exact nodup_addName ih n

theorem tableNames_append (thin : Bool) (names : List String) (n : String) :
    tableNames thin (names ++ [n]) =
      if thin then tableNames thin names ++ [n]
      else if useStringTable false n then addName (tableNames thin names) n
      else tableNames thin names := by
  cases thin <;> by_cases hn : useStringTable false n <;>
    simp [tableNames, List.filter_append, hn, firstOccurrences_append]

theorem tableNames_extends (thin : Bool) (names more : List String) :
    tableNames thin names <+: tableNames thin (names ++ more) := by
  induction more using List.reverseRecOn with
  | nil => simp
  | append_singleton more n ih =>
    refine ih.trans ?_
    rw [← List.append_assoc, tableNames_append]
    split
    · exact List.prefix_append _ _
    · split
      · exact addName_extends _ _
      · exact List.prefix_refl _

theorem recordOffset_eq_of_le {recs recs' : List String} (h : recs <+: recs') {j : Nat}
    (hj : j ≤ recs.length) : recordOffset recs' j = recordOffset recs j := by
  obtain ⟨t, rfl⟩ := h
  simp [recordOffset, List.take_append_of_le_length hj]

theorem recordOffset_length (recs : List String) :
    recordOffset recs recs.length = (recs.flatMap stringTableEntry).length := by
  simp [recordOffset]

/-- What the string table and the `member_names` map hold for a GNU kind once the members
named `names` have been printed. -/
structure TableInv (thin : Bool) (recs : List String) (st : List UInt8)
    (mn : String → Option Nat) : Prop where
  table : st = recs.flatMap stringTableEntry
  found : thin = false → ∀ n K, mn n = some K →
    ∃ j, recs[j]? = some n ∧ K = recordOffset recs j
  notFound : thin = false → ∀ n, mn n = none → n ∉ recs

theorem tableInv_init (thin : Bool) : TableInv thin (tableNames thin []) [] fun _ => none :=
  ⟨by cases thin <;> rfl, by simp, by cases thin <;> simp [tableNames, firstOccurrences]⟩

/-- How a GNU header names member `m`: by `/K`, where `K` is the offset of a record of the
table `recs` that holds its name, or inline. -/
def NameHeader (thin : Bool) (recs : List String) (m : NewArchiveMember)
    (header : List UInt8) : Prop :=
  if useStringTable thin m.memberName then
    ∃ j rest, recs[j]? = some m.memberName ∧
      header = utf8 ('/' :: fmtLeft 15 (decimal (recordOffset recs j))) ++ rest
  else ∃ rest, header = utf8 (fmtLeft 16 (m.memberName.data ++ ['/'])) ++ rest

/-- The string table only grows at its end, so a header keeps naming its record. -/
theorem NameHeader.mono {thin : Bool} {recs recs' : List String} {m : NewArchiveMember}
    {header : List UInt8} (h : NameHeader thin recs m header) (hp : recs <+: recs') :
    NameHeader thin recs' m header := by
  unfold NameHeader at *
  split at h
  · rename_i hu
    obtain ⟨j, rest, hj, rfl⟩ := h
    have hjl : j < recs.length := (List.getElem?_eq_some_iff.1 hj).1
    rw [if_pos hu]
    obtain ⟨t, rfl⟩ := hp
    refine ⟨j, rest, by rw [List.getElem?_append_left hjl, hj], ?_⟩
    rw [recordOffset_eq_of_le ⟨t, rfl⟩ hjl.le]
  · rwa [if_neg ‹_›]

theorem tableNames_append_short {thin : Bool} {n : String} (hu : useStringTable thin n = false)
    (names : List String) : tableNames thin (names ++ [n]) = tableNames thin names := by
  cases thin
  · simp [tableNames_append, hu]
  · simp [useStringTable] at hu

theorem tableNames_append_new {thin : Bool} {names : List String} {n : String}
    (hu : useStringTable thin n = true) (hn : thin = true ∨ n ∉ tableNames thin names) :
    tableNames thin (names ++ [n]) = tableNames thin names ++ [n] := by
  cases thin
  · simp only [Bool.false_eq_true, false_or] at hn
    simp [tableNames_append, hu, addName, hn]
  · simp [tableNames_append]

theorem tableNames_append_found {names : List String} {n : String}
    (hu : useStringTable false n = true) (hn : n ∈ tableNames false names) :
    tableNames false (names ++ [n]) = tableNames false names := by
  simp [tableNames_append, hu, addName, hn]

/-- The record appended last is the name just printed, at the old end of the table. -/
theorem nameHeader_new {thin : Bool} {names : List String} {m : NewArchiveMember}
    (hu : useStringTable thin m.memberName = true)
    (ht : tableNames thin (names ++ [m.memberName]) = tableNames thin names ++ [m.memberName])
    (rest : List UInt8) :
    NameHeader thin (tableNames thin (names ++ [m.memberName])) m (utf8 ('/' :: fmtLeft 15
      (decimal ((tableNames thin names).flatMap stringTableEntry).length)) ++ rest) := by
  rw [NameHeader, if_pos hu, ht]
  refine ⟨(tableNames thin names).length, rest, by simp, ?_⟩
  rw [recordOffset_eq_of_le (List.prefix_append _ _) le_rfl, recordOffset_length]

theorem tableInv_step {kind : ArchiveKind} (hk : kind = Gnu ∨ kind = Gnu64) {thin : Bool}
    {names : List String} {st : List UInt8} {mn : String → Option Nat} {pos : Nat}
    {m : NewArchiveMember} {mtime size : Nat} {header st' : List UInt8}
    {mn' : String → Option Nat} (hinv : TableInv thin (tableNames thin names) st mn)
    (h : printMemberHeader pos st mn kind thin m mtime size = .ok (header, st', mn')) :
    TableInv thin (tableNames thin (names ++ [m.memberName])) st' mn' ∧
      NameHeader thin (tableNames thin (names ++ [m.memberName])) m header := by
  obtain ⟨htab, hfound, hnot⟩ := hinv
  rcases printMemberHeader_gnu hk h with ⟨hu, rfl, rfl, rfl⟩ | ⟨hu, rfl, rfl, rfl, rfl⟩ |
    ⟨hu, rfl, p, hp, rfl, rfl, rfl⟩ | ⟨hu, rfl, hn, rfl, rfl, rfl⟩
  · -- inline name: nothing is recorded
    rw [tableNames_append_short hu]
    exact ⟨⟨htab, hfound, hnot⟩, by rw [NameHeader, if_neg (by simp [hu])]; exact ⟨_, rfl⟩⟩
  · -- thin: a fresh record for every member
    have ht : tableNames true (names ++ [m.memberName]) = tableNames true names ++ [m.memberName] :=
      tableNames_append_new hu (.inl rfl)
    refine ⟨⟨by simp [ht, htab], nofun, nofun⟩, ?_⟩
    rw [htab]; exact nameHeader_new hu ht _
  · -- a name recorded before: its offset is reused
    obtain ⟨j, hj, rfl⟩ := hfound rfl _ _ hp
    have ht := tableNames_append_found hu (List.getElem?_mem hj)
    rw [ht]
    exact ⟨⟨htab, hfound, hnot⟩, by rw [NameHeader, if_pos hu]; exact ⟨j, _, hj, rfl⟩⟩
  · -- a new long name: appended, and its offset remembered
    have hnin := hnot rfl _ hn
    have ht := tableNames_append_new hu (.inr hnin)
    refine ⟨⟨by simp [ht, htab], fun _ n' K hK => ?_, fun _ n' hK => ?_⟩, ?_⟩
    · by_cases hn' : n' = m.memberName
      · subst hn'
        simp only [Function.update_same, Option.some.injEq] at hK
        subst hK
        refine ⟨(tableNames false names).length, by simp [ht], ?_⟩
        rw [ht, recordOffset_eq_of_le (List.prefix_append _ _) le_rfl, recordOffset_length, htab]
      · rw [Function.update_noteq hn'] at hK
        obtain ⟨j, hj, rfl⟩ := hfound rfl _ _ hK
        have hjl := (List.getElem?_eq_some_iff.1 hj).1
        refine ⟨j, by rw [ht, List.getElem?_append_left hjl, hj], ?_⟩
        rw [ht, recordOffset_eq_of_le (List.prefix_append _ _) hjl.le]
    · by_cases hn' : n' = m.memberName
      · subst hn'; simp at hK
      · rw [Function.update_noteq hn'] at hK
        simp [ht, hnot rfl _ hK, hn']
    · rw [htab]; exact nameHeader_new hu ht _

/-! ## The string table after `compute_member_data` -/

theorem computeMembers_table {parse : ObjectParser} {kind : ArchiveKind}
    (hk : kind = Gnu ∨ kind = Gnu64) {thin needSymbols uniqueTimestamps : Bool} :
    ∀ {names : List String} {s s' : Acc} {ms : List NewArchiveMember} {ds : List MemberData},
    TableInv thin (tableNames thin names) s.stringTable s.memberNames →
    computeMembers parse kind thin needSymbols uniqueTimestamps s ms = .ok (ds, s') →
    let recs := tableNames thin (names ++ ms.map (·.memberName))
    TableInv thin recs s'.stringTable s'.memberNames ∧
      ∀ (i : Nat) (m : NewArchiveMember) (d : MemberData), ms[i]? = some m → ds[i]? = some d →
        NameHeader thin recs m d.header
  | names, s, s', [], ds, hinv, h => by
    cases h
    exact ⟨by simpa using hinv, by simp⟩
  | names, s, s', m :: ms, ds, hinv, h => by
    obtain ⟨d, s₁, ds', h₁, h₂, rfl⟩ := computeMembers_cons_ok h
    obtain ⟨_, -, -, -, -, hhdr, -, -⟩ := computeMember_ok h₁
    obtain ⟨hinv₁, hname⟩ := tableInv_step hk hinv hhdr
    obtain ⟨hinv', hnames⟩ := computeMembers_table hk hinv₁ h₂
    have hm : names ++ (m :: ms).map (·.memberName) =
        names ++ [m.memberName] ++ ms.map (·.memberName) := by simp
    rw [hm]
    refine ⟨hinv', fun i m' d' hm' hd' => ?_⟩
    cases i with
    | zero =>
      simp only [List.getElem?_cons_zero, Option.some.injEq] at hm' hd'
      subst hm' hd'
      exact hname.mono (tableNames_extends _ _ _)
    | succ i =>
      simp only [List.getElem?_cons_succ] at hm' hd'
      exact hnames i m' d' hm' hd'

theorem computeMembers_stringTable_bsd {parse : ObjectParser} {kind : ArchiveKind}
    (hk : kind.Writable) (hb : kind.bsd = true) {thin needSymbols uniqueTimestamps : Bool} :
    ∀ {s s' : Acc} {ms : List NewArchiveMember} {ds : List MemberData},
    computeMembers parse kind thin needSymbols uniqueTimestamps s ms = .ok (ds, s') →
    s'.stringTable = s.stringTable
  | s, s', [], ds, h => by cases h; rfl
  | s, s', m :: ms, ds, h => by
    obtain ⟨d, s₁, ds', h₁, h₂, rfl⟩ := computeMembers_cons_ok h
    obtain ⟨_, -, -, -, -, hhdr, -, -⟩ := computeMember_ok h₁
    rw [printMemberHeader_bsd hk hb] at hhdr
    simp only [Except.ok.injEq, Prod.mk.injEq] at hhdr
    rw [computeMembers_stringTable_bsd hk hb h₂, ← hhdr.2.1]

theorem string_table_construction {parse : ObjectParser} {kind : ArchiveKind}
    {thin deterministic needSymbols : Bool} {newMembers : List NewArchiveMember}
    {ret : List MemberData} {stringTable symNames : List UInt8}
    (h : computeMemberData parse kind thin deterministic needSymbols newMembers =
      .ok (ret, stringTable, symNames)) :
    ret.length = newMembers.length ∧
    ((kind = Gnu ∨ kind = Gnu64) →
      let recs := tableNames thin (newMembers.map (·.memberName))
      stringTable = recs.flatMap stringTableEntry ∧ (thin = false → recs.Nodup) ∧
      ∀ (i : Nat) (m : NewArchiveMember) (d : MemberData), newMembers[i]? = some m →
        ret[i]? = some d → NameHeader thin recs m d.header) ∧
    (kind.bsd = true → stringTable = [] ∧
      (if stringTable.isEmpty then ret else computeStringTable stringTable :: ret) = ret) := by
  obtain ⟨s, hs, rfl, -⟩ := computeMemberData_ok h
  refine ⟨computeMembers_length hs, fun hk => ?_, fun hb => ?_⟩
  · obtain ⟨hinv, hnames⟩ := computeMembers_table hk (tableInv_init thin) hs
    refine ⟨hinv.table, fun hthin => ?_, hnames⟩
    subst hthin
    exact nodup_firstOccurrences _
  · have := computeMembers_stringTable_bsd (writable_of_bsd hb) hb hs
    simp [this, initAcc]

/-- Two members named by one long name, and a short one. -/
def sharedLongName : List NewArchiveMember :=
  [⟨[1, 2, 3], "a_long_member_name.o", 0, 0, 0, 0⟩, ⟨[4], "a_long_member_name.o", 0, 0, 0, 0⟩,
    ⟨[], "b.o", 0, 0, 0, 0⟩]

theorem string_table_shared_long_name :
    ∃ ret stringTable symNames,
      computeMemberData (fun _ => none) Gnu false true false sharedLongName =
        .ok (ret, stringTable, symNames) ∧
      stringTable = (tableNames false (sharedLongName.map (·.memberName))).flatMap
        stringTableEntry := by
  obtain ⟨⟨ret, st, sn⟩, hr⟩ : ∃ r, computeMemberData (fun _ => none) Gnu false true false
      sharedLongName = .ok r := ⟨_, rfl⟩
  exact ⟨ret, st, sn, hr, ((string_table_construction hr).2.1 (.inl rfl)).1⟩

end ArchiveWriter
